/-
  Rv32Sim.Proofs.Text.Spelling

  The spellings of a word on the command line. A prefix chooses the base, underscores behind it
  do not count, and what is left over must be a numeral of the base with a value that fits in a
  word (`word_spelled_exactly`). The written form of a number is such a numeral, in either case
  of its letters (`denotes_of_spells`): its digits denote their values one by one, by induction
  on the number from its last digit on.
-/
import Rv32Sim.Proofs.Text.Numeral

namespace Rv32Sim

namespace Text

/-! ## Written numbers -/

/-- The written form of a number in a base, each letter in either case. -/
def Spells (base : Nat) (cs : List Char) (n : Nat) : Prop :=
  List.Forall₂ (fun c d => c = d ∨ c = d.toUpper) cs (Nat.toDigits base n)

/-- A digit has its value in every base that goes beyond it. -/
theorem digit?_eq_some_of_lt {base d : Nat} {c : Char} (h : digit? 16 c = some d)
    (hd : d < base) : digit? base c = some d := by
  rw [digit?, Option.filter_eq_some_iff] at h ⊢
  exact ⟨h.1, by simpa using hd⟩

theorem digit?_digitChar {base d : Nat} {c : Char} (hbase : base ≤ 16) (hd : d < base)
    (hc : c = d.digitChar ∨ c = d.digitChar.toUpper) : digit? base c = some d := by
  have hsixteen : ∀ d < 16, digit? 16 d.digitChar = some d ∧
      digit? 16 d.digitChar.toUpper = some d := by decide
  obtain ⟨hlower, hupper⟩ := hsixteen d (by omega)
  rcases hc with rfl | rfl
  · exact digit?_eq_some_of_lt hlower hd
  · exact digit?_eq_some_of_lt hupper hd

theorem exists_haveValues_of_spells {base n : Nat} {cs : List Char} (hone : 1 < base)
    (hbase : base ≤ 16) (h : Spells base cs n) :
    ∃ values, HaveValues base cs values ∧ n = Nat.ofDigits base values.reverse := by
  induction n using Nat.strongRecOn generalizing cs with
  | ind n ih =>
    rw [Spells] at h
    by_cases hn : n < base
    · rw [Nat.toDigits_of_lt_base hn] at h
      obtain ⟨c, rest, hc, hrest, rfl⟩ := List.forall₂_cons_right_iff.1 h
      obtain rfl := List.forall₂_nil_right_iff.1 hrest
      refine ⟨[n], .cons (digit?_digitChar hbase hn hc) .nil, ?_⟩
      rw [List.reverse_singleton, Nat.ofDigits_singleton]
    · -- the digits are those of the quotient, and behind them the one of the remainder
      rw [Nat.toDigits_of_base_le hone (by omega)] at h
      have hfront := List.forall₂_take_append cs _ _ h
      have hback := List.forall₂_drop_append cs _ _ h
      obtain ⟨c, rest, hc, hrest, hlast⟩ := List.forall₂_cons_right_iff.1 hback
      obtain rfl := List.forall₂_nil_right_iff.1 hrest
      have hdigit : digit? base c = some (n % base) :=
        digit?_digitChar hbase (Nat.mod_lt n (by omega)) hc
      obtain ⟨values, hvalues, hquotient⟩ := ih (n / base) (Nat.div_lt_self (by omega) hone) hfront
      refine ⟨values ++ [n % base], ?_, ?_⟩
      · rw [← List.take_append_drop (Nat.toDigits base (n / base)).length cs, hlast]
        exact List.rel_append hvalues (.cons hdigit .nil)
      · rw [List.reverse_append, List.reverse_singleton, List.singleton_append,
          Nat.ofDigits_cons, ← hquotient]
        exact (Nat.mod_add_div n base).symm

/-- The written form of a number denotes it. -/
theorem denotes_of_spells {base n : Nat} {cs : List Char} (hone : 1 < base) (hbase : base ≤ 16)
    (h : Spells base cs n) : Denotes base cs n := by
  obtain ⟨values, hvalues, hn⟩ := exists_haveValues_of_spells hone hbase h
  refine ⟨cs, values, .inl rfl, ?_, hvalues, hn⟩
  rintro rfl
  exact Nat.toDigits_ne_nil (List.forall₂_nil_left_iff.1 h)

/-! ## Prefixes -/

/-- The base of a text, and what stands behind its prefix. -/
inductive HasBody : List Char → Nat → List Char → Prop
  | hexadecimal (x : Char) (body : List Char) :
      x = 'x' ∨ x = 'X' → HasBody ('0' :: x :: body) 16 body
  | decimal (body : List Char) :
      (∀ x rest, body = '0' :: x :: rest → x ≠ 'x' ∧ x ≠ 'X') → HasBody body 10 body

theorem HasBody.base_pos {text body : List Char} {base : Nat} (h : HasBody text base body) :
    0 < base := by
  cases h <;> decide

theorem exists_hasBody (text : List Char) : ∃ base body, HasBody text base body := by
  by_cases h : ∃ x rest, text = '0' :: x :: rest ∧ (x = 'x' ∨ x = 'X')
  · obtain ⟨x, rest, rfl, hx⟩ := h
    exact ⟨16, rest, .hexadecimal x rest hx⟩
  · refine ⟨10, text, .decimal text fun x rest htext => ?_⟩
    rw [← not_or]
    exact fun hx => h ⟨x, rest, htext, hx⟩

end Text

open Text

namespace Word

/-! ## Reading a word -/

/-- What a text denotes as a word: its prefix chooses the base, and underscores behind the
    prefix do not count. -/
def DenotedBy (text : List Char) (w : Word) : Prop :=
  ∃ base body, HasBody text base body ∧ Denotes base (body.filter (· != '_')) w.toNat

theorem ofNumeral_of_hasBody {text : String} {base : Nat} {body : List Char}
    (h : HasBody text.toList base body) :
    ofNumeral text =
      (readNumeral base 0x100000000 (body.filter (· != '_'))).map (BitVec.ofNat 32) := by
  rw [ofNumeral]
  generalize text.toList = chars at h ⊢
  cases h with
  | hexadecimal x body hx => rcases hx with rfl | rfl <;> rfl
  | decimal body hplain =>
    split
    · rename_i rest
      exact absurd rfl (hplain 'x' rest rfl).1
    · rename_i rest
      exact absurd rfl (hplain 'X' rest rfl).2
    · rfl

theorem ofNumeral_eq_ok_iff {text : String} {w : Word} :
    ofNumeral text = .ok w ↔ DenotedBy text.toList w := by
  have hread {base : Nat} {body : List Char} (h : HasBody text.toList base body) :
      ofNumeral text = .ok w ↔ Denotes base (body.filter (· != '_')) w.toNat := by
    rw [← exists_readNumeral_iff h.base_pos (show 0x100000000 = 2 ^ 32 by decide),
      ofNumeral_of_hasBody h]
    cases readNumeral base 0x100000000 (body.filter (· != '_')) with
    | ok m => simp [Except.map]
    | error e => simp [Except.map]
  constructor
  · intro h
    obtain ⟨base, body, hbody⟩ := exists_hasBody text.toList
    exact ⟨base, body, hbody, (hread hbody).1 h⟩
  · rintro ⟨base, body, hbody, hdenotes⟩
    exact (hread hbody).2 hdenotes

/-! ### Written words -/

/-- A word in decimal does not look like one with a prefix. -/
theorem denotedBy_of_spells_ten {body : List Char} {w : Word}
    (h : Spells 10 (body.filter (· != '_')) w.toNat) : DenotedBy body w := by
  refine ⟨10, body, .decimal body fun x rest hbody => ?_,
    denotes_of_spells (by decide) (by decide) h⟩
  obtain ⟨values, hvalues, -⟩ := exists_haveValues_of_spells (by decide) (by decide) h
  subst hbody
  rw [← not_or]
  -- the letter of a prefix is not an underscore, and no digit of the base
  rintro (rfl | rfl)
  all_goals
    rw [List.filter_cons_of_pos (by decide), List.filter_cons_of_pos (by decide)] at hvalues
    obtain _ | ⟨-, _ | ⟨hx, -⟩⟩ := hvalues
    cases hx

theorem denotedBy_of_spells_sixteen {x : Char} {body : List Char} {w : Word}
    (hx : x = 'x' ∨ x = 'X') (h : Spells 16 (body.filter (· != '_')) w.toNat) :
    DenotedBy ('0' :: x :: body) w :=
  ⟨16, body, .hexadecimal x body hx, denotes_of_spells (by decide) (by decide) h⟩

/-- **The language of words.** A text is read as a word exactly if it denotes this word: without
    its prefix, which chooses the base, and without underscores it is a numeral of the base,
    with or without a plus sign, and the value is below `2 ^ 32`. Any other text is an error.
    So every word is read from its decimal form and, behind either prefix, from its hexadecimal
    form with letters in either case, wherever underscores stand behind the prefix. -/
theorem word_spelled_exactly :
    (∀ text w, ofNumeral text = .ok w ↔ DenotedBy text.toList w) ∧
    (∀ text, (∃ e, ofNumeral text = .error e) ↔ ¬∃ w, DenotedBy text.toList w) ∧
    (∀ (w : Word) (body : List Char), Spells 10 (body.filter (· != '_')) w.toNat →
      ofNumeral (String.ofList body) = .ok w) ∧
    (∀ (w : Word) (x : Char) (body : List Char), x = 'x' ∨ x = 'X' →
      Spells 16 (body.filter (· != '_')) w.toNat →
      ofNumeral (String.ofList ('0' :: x :: body)) = .ok w) := by
  refine ⟨fun text w => ofNumeral_eq_ok_iff, ?_, ?_, ?_⟩
  · intro text
    simp only [← ofNumeral_eq_ok_iff]
    cases ofNumeral text with
    | ok w => simp
    | error e => simp
  · intro w body h
    rw [ofNumeral_eq_ok_iff, String.toList_ofList]
    exact denotedBy_of_spells_ten h
  · intro w x body hx h
    rw [ofNumeral_eq_ok_iff, String.toList_ofList]
    exact denotedBy_of_spells_sixteen hx h

/-- Letters of both cases and underscores at both ends; the first value that does not fit. -/
theorem word_spelled_exactly_of_letters :
    Spells 16 ("_de_AD__beef_".toList.filter (· != '_')) (0xdeadbeef : Word).toNat ∧
    ofNumeral (String.ofList ('0' :: 'X' :: "_de_AD__beef_".toList)) = .ok 0xdeadbeef ∧
    ofNumeral "4_294_967_296" = .error .tooLarge ∧
    ¬∃ w, DenotedBy "4_294_967_296".toList w := by
  obtain ⟨-, herror, -, hhex⟩ := word_spelled_exactly
  have hdigits : Nat.toDigits 16 (0xdeadbeef : Word).toNat =
      ['d', 'e', 'a', 'd', 'b', 'e', 'e', 'f'] := by decide
  have hspells :
      Spells 16 ("_de_AD__beef_".toList.filter (· != '_')) (0xdeadbeef : Word).toNat := by
    rw [Spells, hdigits]
    simp
  have hlarge : ofNumeral "4_294_967_296" = .error .tooLarge := by decide
  exact ⟨hspells, hhex _ 'X' _ (.inr rfl) hspells, hlarge, (herror _).1 ⟨_, hlarge⟩⟩

end Word

end Rv32Sim
