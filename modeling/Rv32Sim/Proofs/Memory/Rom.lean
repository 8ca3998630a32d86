/-
  Rv32Sim.Proofs.Memory.Rom

  The program image as a list of words. Of the entries it was collected from, an image keeps
  the last one for each memory word, whatever addresses of that word they were given with
  (`word?_insertMany`). It is determined by its words: put together from them in any order it
  is the same image (`ofList_of_perm_toList`), because no two of them belong to one memory
  word. Both together make it a canonical form of the entries (`collected_exactly`).

  An image can be written byte by byte as well, and then shows the last byte for each address
  (`byte?_putBytes`). A word at the first address of its memory word is the same as its four
  bytes (`putBytes_eq_insert`).
-/
import Mathlib.Algebra.Ring.Nat
import Rv32Sim.Memory.Rom
import Rv32Sim.Proofs.Memory.Word

namespace Rv32Sim

/-! ## The last of many entries -/

section LastAt

variable {α : Type} (p : Word → Prop) [DecidablePred p]

/-- What the last of the entries whose addresses have a property says, if there is one. -/
def lastAt? (entries : List (Word × α)) : Option α :=
  (entries.filter fun e => p e.1).getLast?.map Prod.snd

theorem lastAt?_cons (e : Word × α) (entries : List (Word × α)) :
    lastAt? p (e :: entries) = (lastAt? p entries).or (if p e.1 then some e.2 else none) := by
  rw [lastAt?, lastAt?, List.filter_cons]
  by_cases he : p e.1
  · simp only [he, decide_true, if_true, List.getLast?_cons]
    cases (entries.filter fun e => p e.1).getLast? <;> rfl
  · simp [he]

theorem lastAt?_eq_none_iff {entries : List (Word × α)} :
    lastAt? p entries = none ↔ ∀ e ∈ entries, ¬p e.1 := by
  simp [lastAt?]

end LastAt

namespace Rom

/-! ## Empty images -/

theorem isEmpty_empty : empty.isEmpty = true := Std.ExtTreeMap.isEmpty_empty

theorem isEmpty_insert (rom : Rom) (a w : Word) : (rom.insert a w).isEmpty = false :=
  Std.ExtTreeMap.isEmpty_eq_false_iff.2 Std.ExtTreeMap.insert_ne_empty

/-! ## The words of an image -/

theorem mem_toList_iff {rom : Rom} {a w : Word} :
    (a, w) ∈ rom.toList ↔ a.offset = 0 ∧ rom.word? a = some w := by
  rw [toList, List.mem_map]
  constructor
  · rintro ⟨⟨k, w'⟩, hmem, heq⟩
    cases heq
    have hget := Std.ExtTreeMap.mem_toList_iff_getElem?_eq_some.1 hmem
    refine ⟨Word.offset_ofIndex k, ?_⟩
    rw [word?, Word.index_ofIndex]
    exact hget
  · rintro ⟨ha, hw⟩
    refine ⟨(a.index, w), Std.ExtTreeMap.mem_toList_iff_getElem?_eq_some.2 hw, ?_⟩
    show (Word.ofIndex a.index, w) = (a, w)
    rw [Word.ofIndex_index_of_offset ha]

/-- An entry is listed under the address that its key stands for. -/
theorem mem_toList_alignDown {rom : Rom} {a w : Word} :
    (a.alignDown, w) ∈ rom.toList ↔ rom.word? a = some w := by
  have haligned : a.alignDown.offset = 0 := by
    rw [Word.alignDown_eq_ofIndex, Word.offset_ofIndex]
  rw [mem_toList_iff, word?_alignDown]
  exact and_iff_right haligned

/-- No two words of an image belong to one memory word. -/
theorem pairwise_toList (rom : Rom) :
    rom.toList.Pairwise fun e f => e.1.index ≠ f.1.index := by
  rw [toList, List.pairwise_map]
  refine rom.words.distinct_keys_toList.imp ?_
  intro e f hne heq
  rw [Word.index_ofIndex, Word.index_ofIndex] at heq
  rw [Std.LawfulEqCmp.compare_eq_iff_eq] at hne
  exact hne heq

/-- The words of an image are listed by ascending address. -/
theorem pairwise_lt_toList (rom : Rom) : rom.toList.Pairwise fun e f => e.1 < f.1 := by
  rw [toList, List.pairwise_map]
  refine rom.words.ordered_keys_toList.imp ?_
  intro e f hcompare
  have hlt : e.1 < f.1 := compareOfLessAndEq_eq_lt.1 hcompare
  rw [BitVec.lt_def] at hlt
  rw [BitVec.lt_def, Word.toNat_ofIndex, Word.toNat_ofIndex]
  omega

theorem length_toList (rom : Rom) : rom.toList.length = rom.size := by
  rw [toList, List.length_map, size]
  exact Std.ExtTreeMap.length_toList

/-! ## Insertion of many words -/

/-- Of many insertions a memory word shows the last one into it. -/
theorem word?_insertMany (rom : Rom) (entries : List (Word × Word)) (a : Word) :
    (rom.insertMany entries).word? a =
      (lastAt? (·.alignDown = a.alignDown) entries).or (rom.word? a) := by
  induction entries generalizing rom with
  | nil => rfl
  | cons e entries ih =>
    show ((rom.insert e.1 e.2).insertMany entries).word? a = _
    rw [ih, word?_insert, lastAt?_cons, Option.or_assoc]
    by_cases he : e.1.index = a.index
    · rw [if_pos he.symm, if_pos (Word.alignDown_eq_iff.2 he), Option.some_or]
    · rw [if_neg (Ne.symm he), if_neg fun h => he (Word.alignDown_eq_iff.1 h), Option.none_or]

theorem word?_insertMany_of_forall_ne {rom : Rom} {entries : List (Word × Word)} {a : Word}
    (hne : ∀ e ∈ entries, e.1.index ≠ a.index) :
    (rom.insertMany entries).word? a = rom.word? a := by
  have hnone : lastAt? (·.alignDown = a.alignDown) entries = none := by
    rw [lastAt?_eq_none_iff]
    exact fun e he h => hne e he (Word.alignDown_eq_iff.1 h)
  rw [word?_insertMany, hnone, Option.none_or]

/-- Of words of different memory words each one is found again. -/
theorem word?_insertMany_of_mem {rom : Rom} {entries : List (Word × Word)} {a w : Word}
    (hdistinct : entries.Pairwise fun e f => e.1.index ≠ f.1.index)
    (hmem : (a, w) ∈ entries) : (rom.insertMany entries).word? a = some w := by
  induction entries generalizing rom with
  | nil => cases hmem
  | cons e entries ih =>
    rw [List.pairwise_cons] at hdistinct
    show ((rom.insert e.1 e.2).insertMany entries).word? a = _
    rcases List.mem_cons.1 hmem with heq | hlater
    · -- the words behind it are of other memory words
      have hne : ∀ f ∈ entries, f.1.index ≠ a.index := by
        intro f hf
        have hef := hdistinct.1 f hf
        rw [← heq] at hef
        exact Ne.symm hef
      rw [word?_insertMany_of_forall_ne hne, ← heq, word?_insert, if_pos rfl]
    · exact ih hdistinct.2 hlater

/-- An image put together from its own words, in any order. -/
theorem ofList_of_perm_toList {rom : Rom} {entries : List (Word × Word)}
    (hperm : entries.Perm rom.toList) : ofList entries = rom := by
  -- that no two words meet does not depend on their order
  have hdistinct : entries.Pairwise fun e f => e.1.index ≠ f.1.index :=
    hperm.symm.pairwise rom.pairwise_toList Ne.symm
  apply ext_word?
  intro a
  -- every address of a memory word asks for the word at its first byte
  have hfirst (other : Rom) : other.word? a = other.word? (Word.ofIndex a.index) := by
    rw [word?, word?, Word.index_ofIndex]
  rw [hfirst, hfirst rom]
  cases hword : rom.word? (Word.ofIndex a.index) with
  | some w =>
    have hmem : (Word.ofIndex a.index, w) ∈ entries :=
      hperm.mem_iff.2 (mem_toList_iff.2 ⟨Word.offset_ofIndex _, hword⟩)
    exact word?_insertMany_of_mem hdistinct hmem
  | none =>
    have hne : ∀ e ∈ entries, e.1.index ≠ (Word.ofIndex a.index).index := by
      rintro ⟨b, w⟩ hmem heq
      obtain ⟨-, hsome⟩ := mem_toList_iff.1 (hperm.mem_iff.1 hmem)
      rw [word?, heq] at hsome
      rw [word?, hsome] at hword
      cases hword
    rw [ofList, word?_insertMany_of_forall_ne hne, word?_empty]

/-! ## Bytes -/

theorem byte?_putByte (rom : Rom) (a : Word) (b : Byte) (x : Word) :
    (rom.putByte a b).byte? x =
      if x = a then some b
      else if x.index = a.index then some ((rom.byte? x).getD 0)
      else rom.byte? x := by
  have hoffset : x.offset.toNat < AccessSize.word.bytes := x.offset.isLt
  rw [putByte, byte?, word?_insert]
  by_cases hx : x.index = a.index
  · rw [if_pos hx, Option.map_some, Word.byte_ofBytes, if_pos hoffset, if_pos hx]
    -- in one memory word an address is told by its position
    have hsame : x.offset.toNat = a.offset.toNat ↔ x = a := by
      rw [Word.toNat_offset, Word.toNat_offset, ← BitVec.toNat_inj]
      rw [← BitVec.toNat_inj, Word.toNat_index, Word.toNat_index] at hx
      omega
    have hword : rom.word? a = rom.word? x := by
      rw [word?, word?, hx]
    simp only [hsame, hword]
    by_cases hxa : x = a
    · rw [if_pos hxa, if_pos hxa]
    · rw [if_neg hxa, if_neg hxa, byte?]
      cases rom.word? x with
      | none => simp [Word.byte]
      | some w => rfl
  · have hne : x ≠ a := fun h => hx (h ▸ rfl)
    rw [if_neg hx, if_neg hne, if_neg hx, byte?]

/-- Replace bytes one after the other. -/
def putBytes (rom : Rom) (placed : List (Word × Byte)) : Rom :=
  placed.foldl (fun rom p => rom.putByte p.1 p.2) rom

/-- Of many replacements a byte shows the last one; the other bytes of the memory words that
    were touched are zero if they were absent. -/
theorem byte?_putBytes (rom : Rom) (placed : List (Word × Byte)) (x : Word) :
    (rom.putBytes placed).byte? x =
      (lastAt? (· = x) placed).or
        (if ∃ p ∈ placed, p.1.alignDown = x.alignDown then some ((rom.byte? x).getD 0)
        else rom.byte? x) := by
  induction placed generalizing rom with
  | nil => simp [putBytes, lastAt?]
  | cons p placed ih =>
    show ((rom.putByte p.1 p.2).putBytes placed).byte? x = _
    rw [ih, byte?_putByte, lastAt?_cons, Option.or_assoc]
    by_cases hx : p.1 = x
    · subst hx
      simp
    · -- another address; in the same memory word it makes an absent byte zero
      by_cases hindex : p.1.index = x.index
      · simp [hx, Ne.symm hx, hindex, Word.alignDown_eq_iff]
      · simp [hx, Ne.symm hx, hindex, Ne.symm hindex, Word.alignDown_eq_iff]

theorem byte?_insert (rom : Rom) (a w x : Word) :
    (rom.insert a w).byte? x =
      if x.index = a.index then some (w.byte x.offset.toNat) else rom.byte? x := by
  rw [byte?, word?_insert]
  by_cases hx : x.index = a.index
  · rw [if_pos hx, if_pos hx, Option.map_some]
  · rw [if_neg hx, if_neg hx, byte?]

/-- Images with the same bytes are equal. -/
theorem ext_byte? {rom other : Rom} (h : ∀ a, rom.byte? a = other.byte? a) : rom = other := by
  apply ext_word?
  intro a
  have hbyte (i : Nat) (hi : i < 4) :
      (rom.word? a).map (·.byte i) = (other.word? a).map (·.byte i) := by
    have ha := a.isLt
    -- ask for the byte at the address of place `i` in the memory word
    let x := Word.ofIndex a.index + BitVec.ofNat 32 i
    have hx : x.toNat = 4 * (a.toNat / 4) + i := by
      rw [BitVec.toNat_add, Word.toNat_ofIndex, Word.toNat_index, BitVec.toNat_ofNat]
      omega
    have hindex : x.index = a.index := by
      rw [← BitVec.toNat_inj, Word.toNat_index, Word.toNat_index]
      omega
    have hoffset : x.offset.toNat = i := by
      rw [Word.toNat_offset]
      omega
    have hx := h x
    rwa [byte?, byte?, word?, word?, hindex, hoffset] at hx
  cases hrom : rom.word? a with
  | none =>
    cases hother : other.word? a with
    | none => rfl
    | some w => simpa [hrom, hother] using hbyte 0
  | some v =>
    cases hother : other.word? a with
    | none => simpa [hrom, hother] using hbyte 0
    | some w =>
      simp only [hrom, hother, Option.map_some, Option.some.injEq] at hbyte
      rw [Word.ext_byte hbyte]

/-- A word at the first address of its memory word is placed by its bytes. -/
theorem putBytes_eq_insert (rom : Rom) {a : Word} (w : Word) (ha : 4 ∣ a.toNat) :
    rom.putBytes [(a, w.byte 0), (a + 1, w.byte 1), (a + 2, w.byte 2), (a + 3, w.byte 3)] =
      rom.insert a w := by
  apply ext_byte?
  intro x
  have hindex (i : Word) (hi : i.toNat < 4) : (a + i).index = a.index := by
    rw [← BitVec.toNat_inj, Word.toNat_index, Word.toNat_index, BitVec.toNat_add]
    omega
  have hoffset (i : Word) (hi : i.toNat < 4) : (a + i).offset.toNat = i.toNat := by
    rw [Word.toNat_offset, BitVec.toNat_add]
    omega
  rw [byte?_putBytes, byte?_insert]
  by_cases hx : x.index = a.index
  · -- the address is one of the four, and the last placement there is its own
    obtain ⟨i, hi, rfl⟩ : ∃ i : Word, i.toNat < 4 ∧ x = a + i := by
      rw [← BitVec.toNat_inj, Word.toNat_index, Word.toNat_index] at hx
      refine ⟨x - a, ?_, ?_⟩
      · rw [BitVec.toNat_sub]
        omega
      · bv_omega
    rw [if_pos hx, hoffset i hi]
    obtain rfl | rfl | rfl | rfl : i = 0 ∨ i = 1 ∨ i = 2 ∨ i = 3 := by bv_omega
    all_goals simp [lastAt?]
  · -- no placement is in the memory word of the address
    have hother : ∀ p ∈ [(a, w.byte 0), (a + 1, w.byte 1), (a + 2, w.byte 2), (a + 3, w.byte 3)],
        p.1.index ≠ x.index := by
      intro p hp
      obtain ⟨i, hi, hpi⟩ : ∃ i : Word, i.toNat < 4 ∧ p.1 = a + i := by
        rw [List.mem_cons, List.mem_cons, List.mem_cons, List.mem_singleton] at hp
        obtain rfl | rfl | rfl | rfl := hp
        · exact ⟨0, by decide, (BitVec.add_zero a).symm⟩
        · exact ⟨1, by decide, rfl⟩
        · exact ⟨2, by decide, rfl⟩
        · exact ⟨3, by decide, rfl⟩
      rw [hpi, hindex i hi]
      exact Ne.symm hx
    have hnone : lastAt? (· = x)
        [(a, w.byte 0), (a + 1, w.byte 1), (a + 2, w.byte 2), (a + 3, w.byte 3)] = none := by
      rw [lastAt?_eq_none_iff]
      exact fun p hp h => hother p hp (h ▸ rfl)
    rw [hnone, if_neg hx, Option.none_or, if_neg]
    rintro ⟨p, hp, h⟩
    exact hother p hp (Word.alignDown_eq_iff.1 h)

/-! ## Images as canonical forms -/

/-- **An image is a canonical form of the entries it was collected from.** The word at an
    address is that of the last entry for its memory word, if there is one, and the byte there
    is the byte of this word, counted from the least significant one. The list of the words has
    the first addresses of their memory words in ascending order, and collecting it again, in
    any order, gives the same image. Images are equal exactly if they have the same words. -/
theorem collected_exactly (entries : List (Word × Word)) :
    let rom := ofList entries
    (∀ a, rom.word? a = lastAt? (·.alignDown = a.alignDown) entries) ∧
    (∀ a, rom.byte? a = (rom.word? a).map fun w =>
      BitVec.ofNat 8 (w.toNat / 256 ^ (a.toNat % 4))) ∧
    (∀ a w, (a, w) ∈ rom.toList ↔ 4 ∣ a.toNat ∧ rom.word? a = some w) ∧
    rom.toList.Pairwise (fun e f => e.1 < f.1) ∧
    rom.size = rom.toList.length ∧
    (∀ shuffled : List (Word × Word), shuffled.Perm rom.toList → ofList shuffled = rom) ∧
    ∀ other : Rom, other = rom ↔ ∀ a, other.word? a = rom.word? a := by
  intro rom
  refine ⟨?_, ?_, ?_, rom.pairwise_lt_toList, rom.length_toList.symm, ?_, ?_⟩
  · intro a
    rw [show rom = empty.insertMany entries from rfl, word?_insertMany, word?_empty,
      Option.or_none]
  · intro a
    have hbyte (w : Word) :
        w.byte a.offset.toNat = BitVec.ofNat 8 (w.toNat / 256 ^ (a.toNat % 4)) := by
      apply BitVec.eq_of_toNat_eq
      rw [Word.toNat_byte, Word.toNat_offset, BitVec.toNat_ofNat]
    rw [byte?]
    simp only [hbyte]
  · intro a w
    have haligned : a.offset = 0 ↔ 4 ∣ a.toNat := by
      rw [← BitVec.toNat_inj, Word.toNat_offset, Nat.dvd_iff_mod_eq_zero]
      rfl
    rw [mem_toList_iff, haligned]
  · exact fun shuffled hperm => ofList_of_perm_toList hperm
  · intro other
    exact ⟨fun h a => by rw [h], ext_word?⟩

/-- Two of three entries are for one memory word, and the later one of them stays; the list of
    the words in descending order gives the same image. -/
theorem collected_exactly_of_three :
    (ofList [(6, 2), (1, 7), (5, 3)]).toList = [(0, 7), (4, 3)] ∧
    [(4, 3), (0, 7)].Perm (ofList [(6, 2), (1, 7), (5, 3)]).toList ∧
    (ofList [(6, 2), (1, 7), (5, 3)]).word? 7 = some 3 ∧
    ofList [(4, 3), (0, 7)] = ofList [(6, 2), (1, 7), (5, 3)] := by
  obtain ⟨hword, -, -, -, -, hperm, -⟩ := collected_exactly [(6, 2), (1, 7), (5, 3)]
  have hlist : (ofList [(6, 2), (1, 7), (5, 3)]).toList = [(0, 7), (4, 3)] := by decide
  have hshuffled : [(4, 3), (0, 7)].Perm (ofList [(6, 2), (1, 7), (5, 3)]).toList := by
    rw [hlist]
    exact .swap ..
  exact ⟨hlist, hshuffled, (hword 7).trans (by decide), hperm _ hshuffled⟩

end Rom

end Rv32Sim
