/-
  Rv32Sim.Proofs.Text.Blank

  White space at the ends of a text and between its parts. The trimmed text is the only part
  of a text with white space on both sides of it and none at its own ends
  (`trim_append_append`), so whatever white space surrounds a line, a carriage return before
  a line feed among it, does not matter.
-/
import Mathlib.Data.List.DropRight
import Rv32Sim.Text.Blank

namespace Rv32Sim.Text

/-! ## Trimming -/

/-- A text of white space only. -/
def Blank (cs : List Char) : Prop := ∀ c ∈ cs, isBlank c = true

/-- A text without white space at its ends. -/
def Trimmed (cs : List Char) : Prop :=
  (∀ c ∈ cs.head?, isBlank c = false) ∧ ∀ c ∈ cs.getLast?, isBlank c = false

theorem Blank.append {cs ds : List Char} (hc : Blank cs) (hd : Blank ds) : Blank (cs ++ ds) := by
  intro c hmem
  rcases List.mem_append.1 hmem with h | h
  · exact hc c h
  · exact hd c h

theorem Blank.reverse {cs : List Char} (hc : Blank cs) : Blank cs.reverse :=
  fun c hmem => hc c (List.mem_reverse.1 hmem)

/-- A text without any white space has none at its ends. -/
theorem Trimmed.of_forall {cs : List Char} (h : ∀ c ∈ cs, isBlank c = false) : Trimmed cs :=
  ⟨fun c hc => h c (List.mem_of_head? hc), fun c hc => h c (List.mem_of_getLast? hc)⟩

/-- The last part of a trimmed text is not white space. -/
theorem Trimmed.eq_nil_of_append {cs after : List Char} (h : Trimmed (cs ++ after))
    (hafter : Blank after) : after = [] := by
  rcases List.eq_nil_or_concat after with hnil | ⟨front, last, rfl⟩
  · exact hnil
  · have hlast : isBlank last = false := h.2 last (by simp)
    have hblank : isBlank last = true := hafter last (by simp)
    rw [hlast] at hblank
    cases hblank

theorem dropWhile_isBlank_append {before cs : List Char} (hbefore : Blank before)
    (hcs : ∀ c ∈ cs.head?, isBlank c = false) :
    (before ++ cs).dropWhile isBlank = cs := by
  rw [List.dropWhile_append_of_pos hbefore]
  cases cs with
  | nil => rfl
  | cons c cs => rw [List.dropWhile_cons_of_neg (by simp [hcs c rfl])]

theorem trim_append_append {before cs after : List Char} (hbefore : Blank before)
    (hcs : Trimmed cs) (hafter : Blank after) : trim (before ++ cs ++ after) = cs := by
  cases hempty : cs with
  | nil =>
    have hblank : Blank (before ++ after) := hbefore.append hafter
    have hdrop : (before ++ after).dropWhile isBlank = [] := List.dropWhile_eq_nil_iff.2 hblank
    rw [trim, List.append_nil, hdrop]
    rfl
  | cons c rest =>
    rw [← hempty]
    have hfirst : ∀ d ∈ (cs ++ after).head?, isBlank d = false := by
      subst hempty
      exact hcs.1
    have hlast : ∀ d ∈ cs.reverse.head?, isBlank d = false := by
      rw [List.head?_reverse]
      exact hcs.2
    rw [trim, List.append_assoc, dropWhile_isBlank_append hbefore hfirst, List.reverse_append,
      dropWhile_isBlank_append hafter.reverse hlast, List.reverse_reverse]

/-- A text is its trimmed text with white space around it. -/
theorem exists_trim (cs : List Char) :
    ∃ before after, Blank before ∧ Blank after ∧ cs = before ++ trim cs ++ after := by
  let rest := cs.dropWhile isBlank
  have hrest : trim cs ++ rest.rtakeWhile isBlank = rest :=
    List.rdropWhile_append_rtakeWhile
  refine ⟨cs.takeWhile isBlank, rest.rtakeWhile isBlank, ?_, ?_, ?_⟩
  · exact fun c hc => List.mem_takeWhile_imp hc
  · exact fun c hc => List.mem_rtakeWhile_imp hc
  · rw [List.append_assoc, hrest, List.takeWhile_append_dropWhile]

theorem trimmed_trim (cs : List Char) : Trimmed (trim cs) := by
  let rest := cs.dropWhile isBlank
  obtain ⟨after, hafter⟩ : trim cs <+: rest := List.rdropWhile_prefix isBlank rest
  constructor
  · -- what the right end loses does not touch the left end
    intro c hc
    have hhead : rest.head? = some c := by
      rw [← hafter, List.head?_append, hc]
      rfl
    have hnot := List.head?_dropWhile_not isBlank cs
    rw [hhead] at hnot
    exact hnot
  · intro c hc
    obtain ⟨hne, hlast⟩ := List.mem_getLast?_eq_getLast hc
    rw [hlast]
    exact Bool.eq_false_iff.2 (List.rdropWhile_last_not isBlank rest hne)

/-- White space behind a line does not matter. -/
theorem trim_append_of_blank (cs : List Char) {after : List Char} (hafter : Blank after) :
    trim (cs ++ after) = trim cs := by
  obtain ⟨before, between, hbefore, hbetween, hcs⟩ := exists_trim cs
  have hsplit : cs ++ after = before ++ trim cs ++ (between ++ after) := by
    rw [← List.append_assoc, ← hcs]
  rw [hsplit, trim_append_append hbefore (trimmed_trim cs) (hbetween.append hafter)]

/-! ## Pieces -/

theorem pieces_eq_splitOnP (isSeparator : Char → Bool) (cs : List Char) :
    pieces isSeparator cs = cs.splitOnP isSeparator := by
  induction cs with
  | nil => rfl
  | cons c cs ih =>
    rw [List.splitOnP_cons_eq_if_modifyHead, ← ih]
    rw [pieces] at ih ⊢
    rw [List.foldr_cons]
    split
    · rfl
    · -- there is a piece for the character to go to
      obtain ⟨piece, rest, hpieces⟩ :=
        List.exists_cons_of_ne_nil (ih ▸ List.splitOnP_ne_nil isSeparator cs)
      rw [pieces, hpieces]
      rfl

theorem lines_eq_splitOn (cs : List Char) : lines cs = cs.splitOn '\n' :=
  pieces_eq_splitOnP (· == '\n') cs

theorem tokens_eq_splitOnP (cs : List Char) :
    tokens cs = (cs.splitOnP isBlank).filter fun piece => !piece.isEmpty := by
  rw [tokens, pieces_eq_splitOnP]

/-- A text that does not begin with white space begins with its first token. -/
theorem tokens_cons_of_not_isBlank {c : Char} (cs : List Char) (hc : isBlank c = false) :
    ∃ token more, tokens (c :: cs) = (c :: token) :: more := by
  obtain ⟨piece, rest, hpieces⟩ := List.exists_cons_of_ne_nil (List.splitOnP_ne_nil isBlank cs)
  have hcons : (c :: cs).splitOnP isBlank = (c :: piece) :: rest := by
    rw [List.splitOnP_cons_eq_if_modifyHead, if_neg (by simp [hc]), hpieces]
    rfl
  refine ⟨piece, rest.filter fun piece => !piece.isEmpty, ?_⟩
  rw [tokens_eq_splitOnP, hcons]
  rfl

/-! ## Length -/

/-- No character takes less than a byte. -/
theorem length_le_utf8Length (cs : List Char) : cs.length ≤ utf8Length cs := by
  induction cs with
  | nil => exact Nat.le_refl 0
  | cons c cs ih =>
    have hpos : 0 < c.utf8Size := c.utf8Size_pos
    rw [List.length_cons, utf8Length]
    omega

end Rv32Sim.Text
