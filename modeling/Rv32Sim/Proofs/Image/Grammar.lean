/-
  Rv32Sim.Proofs.Image.Grammar

  The language of image texts. Which lines are in it, what they say, and which part of a line
  outside of it is to blame, is written down without reference to how lines are read
  (`WellFormed`, `Says`, `Blames`). Reading accepts the texts that have only such lines, among
  them one with data, and of any other text it blames the first line that is not in the
  language (`text_accepted_exactly`).
-/
import Rv32Sim.Image
import Rv32Sim.Proofs.Memory.Rom
import Rv32Sim.Proofs.Text.Numeral

namespace Rv32Sim

namespace Image

open Text

/-! ## The language -/

/-- A hexadecimal number, however large. -/
def IsHex (token : List Char) : Prop := ∃ n, Denotes 16 token n

/-- A line of one token with the size of a word. Sizes are in bytes, not in characters. -/
def HasWordShape (line token : List Char) : Prop :=
  tokens line = [token] ∧ utf8Length token = 8

/-- A line of tokens with the size of a byte. -/
def HasByteShape (line : List Char) : Prop :=
  tokens line ≠ [] ∧ ∀ token ∈ tokens line, utf8Length token = 2

/-- A line with data. -/
inductive IsData (line : List Char) : Prop
  | word (token : List Char) : HasWordShape line token → IsHex token → IsData line
  | bytes : HasByteShape line → (∀ token ∈ tokens line, IsHex token) → IsData line

/-- A line of the language, without white space at its ends. -/
inductive WellFormed : List Char → Prop
  | blank : WellFormed []
  | address (space number : List Char) (n : Nat) :
      Blank space → Denotes 16 number n → n < 2 ^ 32 → WellFormed ('@' :: (space ++ number))
  | data (line : List Char) : IsData line → WellFormed line

/-- What the tokens of a line with bytes denote, one by one. -/
def DenoteBytes (ts : List (List Char)) (bs : List Byte) : Prop :=
  List.Forall₂ (fun token (b : Byte) => Denotes 16 token b.toNat) ts bs

/-- What a line of the language says. -/
inductive Says : List Char → Item → Prop
  | blank : Says [] .blank
  | address (space number : List Char) (a : Word) :
      Blank space → Denotes 16 number a.toNat → Says ('@' :: (space ++ number)) (.address a)
  | word (line token : List Char) (w : Word) :
      HasWordShape line token → Denotes 16 token w.toNat → Says line (.word w)
  | bytes (line : List Char) (bs : List Byte) :
      HasByteShape line → DenoteBytes (tokens line) bs → Says line (.bytes bs)

/-- What is to blame in a line outside of the language: the whole line if it is a directive or
    has no shape of data, else the first token that is no number. -/
inductive Blames : List Char → LineError → Prop
  | address (rest : List Char) : ¬WellFormed ('@' :: rest) →
      Blames ('@' :: rest) (.badAddress (String.ofList ('@' :: rest)))
  | word (line token : List Char) : line.head? ≠ some '@' → HasWordShape line token →
      ¬IsHex token → Blames line (.badWord (String.ofList token))
  | byte (line : List Char) (good : List (List Char)) (bad : List Char)
      (more : List (List Char)) : line.head? ≠ some '@' → HasByteShape line →
      tokens line = good ++ bad :: more → (∀ token ∈ good, IsHex token) → ¬IsHex bad →
      Blames line (.badWord (String.ofList bad))
  | shape (line : List Char) : line ≠ [] → line.head? ≠ some '@' →
      (∀ token, ¬HasWordShape line token) → ¬HasByteShape line →
      Blames line (.badWord (String.ofList line))

theorem not_isHex_at (token : List Char) : ¬IsHex ('@' :: token) :=
  fun ⟨n, h⟩ => not_denotes_at 16 token n h

/-- A directive is not taken for data. -/
theorem IsData.head?_ne {line : List Char} (h : IsData line) : line.head? ≠ some '@' := by
  intro hat
  obtain ⟨rest, rfl⟩ : ∃ rest, line = '@' :: rest := by
    cases line with
    | nil => cases hat
    | cons c rest => exact ⟨rest, by rw [Option.some.inj hat]⟩
  obtain ⟨token, more, htokens⟩ := tokens_cons_of_not_isBlank rest (c := '@') (by decide)
  cases h with
  | word only hshape hhex =>
    have honly : '@' :: token = only := by
      have heq := htokens.symm.trans hshape.1
      exact (List.cons.inj heq).1
    exact not_isHex_at token (honly ▸ hhex)
  | bytes _ hhex =>
    rw [htokens] at hhex
    exact not_isHex_at token (hhex _ (List.mem_cons_self ..))

theorem not_isData_nil : ¬IsData [] := by
  rintro (⟨token, hshape, -⟩ | ⟨hshape, -⟩)
  · exact absurd hshape.1 (by simp [tokens, pieces])
  · exact hshape.1 rfl

/-! ## Numbers -/

theorem hex?_eq_some_iff {n : Nat} {token : List Char} {b : BitVec n} :
    hex? n token = some b ↔ Denotes 16 token b.toNat := by
  rw [← exists_readNumeral_iff (by decide) (Nat.one_shiftLeft n), hex?]
  cases readNumeral 16 (1 <<< n) token with
  | ok m => simp
  | error e => simp

theorem hex?_eq_none {n : Nat} {token : List Char} (h : ¬IsHex token) : hex? n token = none := by
  cases hhex : hex? n token with
  | none => rfl
  | some b => exact absurd ⟨_, hex?_eq_some_iff.1 hhex⟩ h

/-- A number of as many digits as fit is in range. -/
theorem exists_denotes {n : Nat} {token : List Char} (hlen : 4 * utf8Length token ≤ n)
    (h : IsHex token) : ∃ b : BitVec n, Denotes 16 token b.toNat := by
  obtain ⟨m, hm⟩ := h
  have hlt : m < 2 ^ n :=
    calc m < 16 ^ token.length := hm.lt_pow_length (by decide)
      _ = 2 ^ (4 * token.length) := by rw [Nat.pow_mul]
      _ ≤ 2 ^ n := by
        have hle := length_le_utf8Length token
        exact Nat.pow_le_pow_right (by decide) (by omega)
  refine ⟨BitVec.ofNat n m, ?_⟩
  rwa [BitVec.toNat_ofNat, Nat.mod_eq_of_lt hlt]

theorem exists_denoteBytes {ts : List (List Char)} (hlen : ∀ token ∈ ts, utf8Length token = 2)
    (hhex : ∀ token ∈ ts, IsHex token) : ∃ bs, DenoteBytes ts bs := by
  induction ts with
  | nil => exact ⟨[], .nil⟩
  | cons token ts ih =>
    rw [List.forall_mem_cons] at hlen hhex
    obtain ⟨b, hb⟩ := exists_denotes (n := 8) (by omega) hhex.1
    obtain ⟨bs, hbs⟩ := ih hlen.2 hhex.2
    exact ⟨b :: bs, .cons hb hbs⟩

theorem readByte_of_denotes {token : List Char} {b : Byte} (h : Denotes 16 token b.toNat) :
    readByte token = .ok b := by
  rw [readByte, hex?_eq_some_iff.2 h]

theorem readByte_of_not_isHex {token : List Char} (h : ¬IsHex token) :
    readByte token = .error (.badWord (String.ofList token)) := by
  rw [readByte, hex?_eq_none h]

theorem readWord_of_denotes {token : List Char} {w : Word} (h : Denotes 16 token w.toNat) :
    readWord token = .ok w := by
  rw [readWord, hex?_eq_some_iff.2 h]

theorem readWord_of_not_isHex {token : List Char} (h : ¬IsHex token) :
    readWord token = .error (.badWord (String.ofList token)) := by
  rw [readWord, hex?_eq_none h]

theorem readBytes_of_denoteBytes {ts : List (List Char)} {bs : List Byte}
    (h : DenoteBytes ts bs) : ts.mapM readByte = .ok bs := by
  induction h with
  | nil => rfl
  | cons hb _ ih =>
    rw [List.mapM_cons, readByte_of_denotes hb, ih]
    rfl

theorem DenoteBytes.isHex {ts : List (List Char)} {bs : List Byte} (h : DenoteBytes ts bs) :
    ∀ token ∈ ts, IsHex token := by
  induction h with
  | nil => simp
  | cons hb _ ih => exact List.forall_mem_cons.2 ⟨⟨_, hb⟩, ih⟩

/-- The first token that is no number ends the line. -/
theorem readBytes_of_not_isHex {good : List (List Char)} {bad : List Char}
    (more : List (List Char)) (hlen : ∀ token ∈ good, utf8Length token = 2)
    (hgood : ∀ token ∈ good, IsHex token) (hbad : ¬IsHex bad) :
    (good ++ bad :: more).mapM readByte = .error (.badWord (String.ofList bad)) := by
  obtain ⟨bs, hbs⟩ := exists_denoteBytes hlen hgood
  rw [List.mapM_append, readBytes_of_denoteBytes hbs, List.mapM_cons,
    readByte_of_not_isHex hbad]
  rfl

/-! ## Lines -/

/-- Whether an item puts something into the image. -/
def Item.isData : Item → Bool
  | .blank | .address _ => false
  | .word _ => true
  | .bytes bs => !bs.isEmpty

/-- A trimmed line that is not empty has a token. -/
theorem tokens_ne_nil {line : List Char} (htrim : Trimmed line) (hne : line ≠ []) :
    tokens line ≠ [] := by
  cases line with
  | nil => exact absurd rfl hne
  | cons c cs =>
    obtain ⟨token, more, htokens⟩ := tokens_cons_of_not_isBlank cs (htrim.1 c rfl)
    rw [htokens]
    exact List.cons_ne_nil _ _

theorem HasByteShape.ne_nil {line : List Char} (h : HasByteShape line) : line ≠ [] := by
  rintro rfl
  exact h.1 rfl

theorem HasWordShape.ne_nil {line token : List Char} (h : HasWordShape line token) :
    line ≠ [] := by
  rintro rfl
  exact absurd h.1 (List.cons_ne_nil _ _).symm

/-- Exactly the lines with data put something into the image. -/
theorem exists_said {line : List Char} (h : WellFormed line) :
    ∃ item, Says line item ∧ (item.isData = true ↔ IsData line) := by
  cases h with
  | blank => exact ⟨.blank, .blank, iff_of_false Bool.false_ne_true not_isData_nil⟩
  | address space number n hspace hnumber hlt =>
    refine ⟨.address (BitVec.ofNat 32 n), .address space number _ hspace ?_, ?_⟩
    · rwa [BitVec.toNat_ofNat, Nat.mod_eq_of_lt hlt]
    · exact iff_of_false Bool.false_ne_true fun hdata => hdata.head?_ne rfl
  | data _ hdata =>
    cases hdata with
    | word token hshape hhex =>
      obtain ⟨w, hw⟩ := exists_denotes (n := 32) (by rw [hshape.2]) hhex
      exact ⟨.word w, .word line token w hshape hw, iff_of_true rfl (.word token hshape hhex)⟩
    | bytes hshape hhex =>
      obtain ⟨bs, hbs⟩ := exists_denoteBytes hshape.2 hhex
      refine ⟨.bytes bs, .bytes line bs hshape hbs, iff_of_true ?_ (.bytes hshape hhex)⟩
      have hpos : 0 < bs.length := by
        rw [← hbs.length_eq]
        exact List.length_pos_iff.2 hshape.1
      cases bs with
      | nil => cases hpos
      | cons b bs => rfl

namespace Item

variable {line token : List Char}

theorem ofTrimmed_of_hasWordShape (hat : line.head? ≠ some '@')
    (hshape : HasWordShape line token) : ofTrimmed line = (readWord token).map .word := by
  rw [ofTrimmed, hshape.1]
  · exact if_pos hshape.2
  · exact hshape.ne_nil
  · exact fun rest h => hat (h ▸ rfl)

theorem ofTrimmed_of_hasByteShape (hat : line.head? ≠ some '@') (hshape : HasByteShape line) :
    ofTrimmed line = ((tokens line).mapM readByte).map .bytes := by
  rw [ofTrimmed]
  · split
    · -- a single token has its own case, which ends in the same bytes
      rename_i token hone
      have hlen : utf8Length token = 2 :=
        hshape.2 token (by rw [hone]; exact List.mem_singleton_self _)
      rw [if_neg (by omega), if_pos hlen, hone, List.mapM_cons]
      cases readByte token <;> rfl
    · exact if_pos (by simpa using hshape.2)
  · exact hshape.ne_nil
  · exact fun rest h => hat (h ▸ rfl)

theorem ofTrimmed_of_no_shape (htrim : Trimmed line) (hne : line ≠ [])
    (hat : line.head? ≠ some '@') (hword : ∀ token, ¬HasWordShape line token)
    (hbyte : ¬HasByteShape line) : ofTrimmed line = .error (.badWord (String.ofList line)) := by
  have hnotAll : ¬∀ token ∈ tokens line, utf8Length token = 2 := fun hall =>
    hbyte ⟨tokens_ne_nil htrim hne, hall⟩
  rw [ofTrimmed]
  · split
    · rename_i token hone
      have h8 : utf8Length token ≠ 8 := fun h => hword token ⟨hone, h⟩
      have h2 : utf8Length token ≠ 2 := fun h => hnotAll (by simpa [hone] using h)
      rw [if_neg h8, if_neg h2]
    · exact if_neg (by simpa using hnotAll)
  · exact hne
  · exact fun rest h => hat (h ▸ rfl)

/-- What a line of the language says is read. -/
theorem ofTrimmed_of_said {item : Item} (h : Says line item) : ofTrimmed line = .ok item := by
  cases h with
  | blank => rfl
  | address space number a hspace hnumber =>
    have htrim : trim (space ++ number) = number := by
      have hends : Trimmed number := .of_forall hnumber.not_isBlank
      have hnil : Blank [] := fun c hc => by cases hc
      simpa using trim_append_append hspace hends hnil
    rw [ofTrimmed, htrim, hex?_eq_some_iff.2 hnumber]
  | word _ token w hshape hw =>
    have hat : line.head? ≠ some '@' := (IsData.word token hshape ⟨_, hw⟩).head?_ne
    rw [ofTrimmed_of_hasWordShape hat hshape, readWord_of_denotes hw]
    rfl
  | bytes _ bs hshape hbs =>
    have hat : line.head? ≠ some '@' := (IsData.bytes hshape hbs.isHex).head?_ne
    rw [ofTrimmed_of_hasByteShape hat hshape, readBytes_of_denoteBytes hbs]
    rfl

/-- A line of the language says something, and puts something into the image if it is a line
    with data. -/
theorem ofTrimmed_of_wellFormed (h : WellFormed line) :
    ∃ item, ofTrimmed line = .ok item ∧ (item.isData = true ↔ IsData line) := by
  obtain ⟨item, hsaid, hdata⟩ := exists_said h
  exact ⟨item, ofTrimmed_of_said hsaid, hdata⟩

/-- A line outside of the language says nothing, and the error is about the part that is to
    blame. -/
theorem ofTrimmed_of_blames {e : LineError} (htrim : Trimmed line) (h : Blames line e) :
    ofTrimmed line = .error e := by
  cases h with
  | address rest hbad =>
    have hnone : hex? 32 (trim rest) = none := by
      cases hhex : hex? 32 (trim rest) with
      | none => rfl
      | some a =>
        -- the line is trimmed, so the number ends it and stands behind white space only
        obtain ⟨space, after, hspace, hafter, hrest⟩ := exists_trim rest
        have hends : Trimmed ('@' :: (space ++ trim rest) ++ after) := by
          rw [List.cons_append, ← hrest]
          exact htrim
        rw [hends.eq_nil_of_append hafter, List.append_nil] at hrest
        have hwf : WellFormed ('@' :: (space ++ trim rest)) :=
          .address space (trim rest) a.toNat hspace (hex?_eq_some_iff.1 hhex) a.isLt
        rw [← hrest] at hwf
        exact absurd hwf hbad
    rw [ofTrimmed, hnone]
  | word _ token hat hshape hbad =>
    rw [ofTrimmed_of_hasWordShape hat hshape, readWord_of_not_isHex hbad]
    rfl
  | byte _ good bad more hat hshape htokens hgood hbad =>
    have hlen : ∀ token ∈ good, utf8Length token = 2 := fun token hmem =>
      hshape.2 token (by rw [htokens]; exact List.mem_append_left _ hmem)
    rw [ofTrimmed_of_hasByteShape hat hshape, htokens,
      readBytes_of_not_isHex more hlen hgood hbad]
    rfl
  | shape _ hne hat hword hbyte => exact ofTrimmed_of_no_shape htrim hne hat hword hbyte

end Item

/-- A list is split at the first entry without a property. -/
theorem exists_first_not {α : Type} {P : α → Prop} {xs : List α} (h : ¬∀ x ∈ xs, P x) :
    ∃ before x after, xs = before ++ x :: after ∧ (∀ y ∈ before, P y) ∧ ¬P x := by
  induction xs with
  | nil => exact absurd (fun x hx => by cases hx) h
  | cons x xs ih =>
    by_cases hx : P x
    · obtain ⟨before, y, after, rfl, hbefore, hy⟩ := ih fun hall =>
        h (List.forall_mem_cons.2 ⟨hx, hall⟩)
      exact ⟨x :: before, y, after, rfl, List.forall_mem_cons.2 ⟨hx, hbefore⟩, hy⟩
    · exact ⟨[], x, xs, rfl, by simp, hx⟩

/-- In every line outside of the language something is to blame. -/
theorem exists_blames {line : List Char} (h : ¬WellFormed line) : ∃ e, Blames line e := by
  have hdata : ¬IsData line := fun hdata => h (.data line hdata)
  by_cases hat : line.head? = some '@'
  · cases line with
    | nil => cases hat
    | cons c rest =>
      cases hat
      exact ⟨_, .address rest h⟩
  · by_cases hword : ∃ token, HasWordShape line token
    · obtain ⟨token, hshape⟩ := hword
      exact ⟨_, .word line token hat hshape fun hhex => hdata (.word token hshape hhex)⟩
    · by_cases hbyte : HasByteShape line
      · obtain ⟨good, bad, more, htokens, hgood, hbad⟩ :=
          exists_first_not fun hhex => hdata (.bytes hbyte hhex)
        exact ⟨_, .byte line good bad more hat hbyte htokens hgood hbad⟩
      · have hne : line ≠ [] := fun hnil => h (hnil ▸ .blank)
        exact ⟨_, .shape line hne hat (fun token hshape => hword ⟨token, hshape⟩) hbyte⟩

/-- A line outside of the language has one part to blame. -/
theorem blames_unique {line : List Char} (htrim : Trimmed line) (h : ¬WellFormed line) :
    ∃ e, ∀ e', Blames line e' ↔ e' = e := by
  obtain ⟨e, he⟩ := exists_blames h
  refine ⟨e, fun e' => ⟨fun he' => ?_, fun heq => heq ▸ he⟩⟩
  have hread := Item.ofTrimmed_of_blames htrim he
  rw [Item.ofTrimmed_of_blames htrim he'] at hread
  exact Except.error.inj hread

/-! ## Texts -/

theorem readItems_of_wellFormed {lines : List (List Char)} (n : Nat)
    (h : ∀ line ∈ lines, WellFormed (trim line)) :
    ∃ items, readItems n lines = .ok items ∧
      ((∃ item ∈ items, item.isData = true) ↔ ∃ line ∈ lines, IsData (trim line)) := by
  induction lines generalizing n with
  | nil => exact ⟨[], rfl, by simp⟩
  | cons line lines ih =>
    rw [List.forall_mem_cons] at h
    obtain ⟨item, hitem, hdata⟩ := Item.ofTrimmed_of_wellFormed h.1
    obtain ⟨items, hitems, hmore⟩ := ih (n + 1) h.2
    refine ⟨item :: items, ?_, ?_⟩
    · rw [readItems, Item.ofLine, hitem, hitems]
      rfl
    · rw [List.exists_mem_cons_iff, List.exists_mem_cons_iff, hdata, hmore]

/-- The first line outside of the language ends the text. -/
theorem readItems_of_blames {before : List (List Char)} {line : List Char} {e : LineError}
    (n : Nat) (after : List (List Char)) (hbefore : ∀ l ∈ before, WellFormed (trim l))
    (hline : Blames (trim line) e) :
    readItems n (before ++ line :: after) = .error (.badLine (n + before.length) e) := by
  induction before generalizing n with
  | nil =>
    have hread : Item.ofLine line = .error e :=
      Item.ofTrimmed_of_blames (trimmed_trim line) hline
    rw [List.nil_append, readItems, hread]
    rfl
  | cons l before ih =>
    rw [List.forall_mem_cons] at hbefore
    obtain ⟨item, hitem, -⟩ := Item.ofTrimmed_of_wellFormed hbefore.1
    rw [List.cons_append, readItems, Item.ofLine, hitem, ih (n + 1) hbefore.2,
      List.length_cons, Nat.add_assoc, Nat.add_comm 1]
    rfl

/-! ## Empty images -/

theorem isEmpty_placeBytes (bs : List Byte) (c : Cursor) :
    (bs.foldl Cursor.placeByte c).rom.isEmpty = (c.rom.isEmpty && bs.isEmpty) := by
  induction bs generalizing c with
  | nil => simp
  | cons b bs ih =>
    have hplaced : (c.placeByte b).rom.isEmpty = false := Rom.isEmpty_insert ..
    rw [List.foldl_cons, ih, hplaced]
    simp

/-- What has been placed stays, whatever is placed behind it. -/
theorem isEmpty_place (c : Cursor) (item : Item) :
    (c.place item).rom.isEmpty = (c.rom.isEmpty && !item.isData) := by
  cases item with
  | blank | address _ => simp [Cursor.place, Item.isData]
  | word w =>
    show (c.rom.insert c.address w).isEmpty = _
    rw [Rom.isEmpty_insert]
    simp [Item.isData]
  | bytes bs =>
    show (bs.foldl Cursor.placeByte c).rom.isEmpty = _
    rw [isEmpty_placeBytes]
    simp [Item.isData]

theorem isEmpty_ofItems (items : List Item) :
    (ofItems items).isEmpty = true ↔ ¬∃ item ∈ items, item.isData = true := by
  -- for every cursor, since the first item already moves it
  have hplace (c : Cursor) : (items.foldl Cursor.place c).rom.isEmpty =
      (c.rom.isEmpty && items.all (!·.isData)) := by
    induction items generalizing c with
    | nil => simp
    | cons item items ih =>
      rw [List.foldl_cons, ih, isEmpty_place, List.all_cons, Bool.and_assoc]
  rw [ofItems, hplace, Cursor.start, Rom.isEmpty_empty]
  simp

section Lines

variable {text : String} {lines : List (List Char)}

/-- A text of lines of the language is accepted, unless none of them has data. -/
theorem ofText_of_wellFormed (hlines : (Text.lines text.toList).map trim = lines)
    (h : ∀ line ∈ lines, WellFormed line) :
    (∃ line ∈ lines, IsData line) ∧ (∃ rom, ofText text = .ok rom) ∨
      (¬∃ line ∈ lines, IsData line) ∧ ofText text = .error .empty := by
  subst hlines
  rw [List.forall_mem_map] at h
  obtain ⟨items, hitems, hdata⟩ := readItems_of_wellFormed 1 h
  have hany : (∃ line ∈ (Text.lines text.toList).map trim, IsData line) ↔
      ∃ item ∈ items, item.isData = true := by
    rw [hdata]
    simp
  rw [hany, ofText, hitems]
  by_cases hsome : ∃ item ∈ items, item.isData = true
  · refine .inl ⟨hsome, ofItems items, if_neg fun hempty => ?_⟩
    exact (isEmpty_ofItems items).1 hempty hsome
  · exact .inr ⟨hsome, if_pos ((isEmpty_ofItems items).2 hsome)⟩

/-- Any other text fails at its first line outside of the language. -/
theorem ofText_of_not_wellFormed (hlines : (Text.lines text.toList).map trim = lines)
    {before after : List (List Char)} {line : List Char}
    (hsplit : lines = before ++ line :: after) (hbefore : ∀ l ∈ before, WellFormed l)
    (hline : ¬WellFormed line) :
    ∃ e, (∀ e', Blames line e' ↔ e' = e) ∧
      ofText text = .error (.badLine (before.length + 1) e) := by
  rw [← hlines] at hsplit
  obtain ⟨before, rest, htext, rfl, hrest⟩ := List.map_eq_append_iff.1 hsplit
  obtain ⟨line, after, rfl, rfl, rfl⟩ := List.map_eq_cons_iff.1 hrest
  rw [List.forall_mem_map] at hbefore
  obtain ⟨e, he⟩ := blames_unique (trimmed_trim line) hline
  refine ⟨e, he, ?_⟩
  rw [ofText, htext, readItems_of_blames 1 after hbefore ((he e).2 rfl), List.length_map,
    Nat.add_comm]

end Lines

/-- **The language of image texts.** Split at line feeds and trimmed, a text is accepted
    exactly if all its lines are in the language and one of them has data. If a line is not in
    the language the first such line decides the error, which carries its number, counted from
    1 with the blank lines, and the one part of the line that is to blame. If there is no such
    line and no data either, the image is empty. A carriage return before a line feed is
    white space at the end of its line. -/
theorem text_accepted_exactly (text : String) :
    let lines := (text.toList.splitOn '\n').map trim
    ((∃ rom, ofText text = .ok rom) ↔
      (∀ line ∈ lines, WellFormed line) ∧ ∃ line ∈ lines, IsData line) ∧
    (∀ before line after, lines = before ++ line :: after →
      (∀ l ∈ before, WellFormed l) → ¬WellFormed line →
      ∃ e, (∀ e', Blames line e' ↔ e' = e) ∧
        ofText text = .error (.badLine (before.length + 1) e)) ∧
    ((∀ line ∈ lines, WellFormed line) → (¬∃ line ∈ lines, IsData line) →
      ofText text = .error .empty) ∧
    ∀ line, trim (line ++ ['\r']) = trim line := by
  intro lines
  have hlines : (Text.lines text.toList).map trim = lines := by
    rw [lines_eq_splitOn]
  refine ⟨⟨?_, ?_⟩, ?_, ?_, ?_⟩
  · rintro ⟨rom, hrom⟩
    by_cases h : ∀ line ∈ lines, WellFormed line
    · rcases ofText_of_wellFormed hlines h with ⟨hdata, -⟩ | ⟨-, hempty⟩
      · exact ⟨h, hdata⟩
      · rw [hrom] at hempty
        cases hempty
    · -- the first line outside of the language would have been an error
      obtain ⟨before, line, after, hsplit, hbefore, hline⟩ := exists_first_not h
      obtain ⟨e, -, herror⟩ := ofText_of_not_wellFormed hlines hsplit hbefore hline
      rw [hrom] at herror
      cases herror
  · rintro ⟨h, hdata⟩
    rcases ofText_of_wellFormed hlines h with ⟨-, hok⟩ | ⟨hnone, -⟩
    · exact hok
    · exact absurd hdata hnone
  · intro before line after hsplit hbefore hline
    exact ofText_of_not_wellFormed hlines hsplit hbefore hline
  · intro h hnone
    rcases ofText_of_wellFormed hlines h with ⟨hdata, -⟩ | ⟨-, hempty⟩
    · exact absurd hdata hnone
    · exact hempty
  · intro line
    exact trim_append_of_blank line (by simp [Blank, isBlank, blankRanges])

/-- Behind a blank line a token with a letter past F is blamed in line 2; a text of blank lines
    alone has no data. -/
theorem text_accepted_exactly_of_blank_lines :
    WellFormed [] ∧ ¬WellFormed ['0', 'g'] ∧ ¬IsData [] ∧
    ofText "\n0g" = .error (.badLine 2 (.badWord "0g")) ∧ ofText "\n" = .error .empty := by
  have hbad : ¬WellFormed ['0', 'g'] := by
    intro h
    obtain ⟨item, hitem, -⟩ := Item.ofTrimmed_of_wellFormed h
    have hread : Item.ofTrimmed ['0', 'g'] = .error (.badWord "0g") := by decide
    rw [hread] at hitem
    cases hitem
  have hshape : HasByteShape ['0', 'g'] := ⟨by decide, by decide⟩
  have htokens : tokens ['0', 'g'] = [['0', 'g']] := by decide
  have hblamed : Blames ['0', 'g'] (.badWord "0g") := by
    refine .byte _ [] _ [] (by decide) hshape htokens (by simp) fun hhex => hbad (.data _ ?_)
    exact .bytes hshape (by simpa [htokens] using hhex)
  have hlines : ("\n0g".toList.splitOn '\n').map trim = [[]] ++ ['0', 'g'] :: [] := by decide
  have hblank : ("\n".toList.splitOn '\n').map trim = [[], []] := by decide
  obtain ⟨-, hfirst, -⟩ := text_accepted_exactly "\n0g"
  obtain ⟨-, -, hempty, -⟩ := text_accepted_exactly "\n"
  obtain ⟨e, he, herror⟩ := hfirst [[]] ['0', 'g'] [] hlines (by simpa using .blank) hbad
  refine ⟨.blank, hbad, not_isData_nil, ?_, hempty ?_ ?_⟩
  · rw [herror, ← (he _).1 hblamed]
    rfl
  · rw [hblank]
    simpa using WellFormed.blank
  · rw [hblank]
    simpa using not_isData_nil

end Image

end Rv32Sim
