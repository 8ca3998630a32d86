/-
  Rv32Sim.Proofs.Isa.Fields

  What a row compares, field by field. A mask covers bits of opcode, funct3 and funct7 only,
  and so does a key whose fields fit their places; words of this kind are computed with field by
  field (`Word.and_ofFields`, `Word.or_ofFields`). So a row accepts the words that have its
  opcode and as much of funct3 and funct7 as it lists, and one that is told to compare some bits
  of funct7 compares these and no others of that field.

  A field that does not fit is not cut to its place. Where a bit of it lands beside the mask, the
  row asks for a bit that it does not look at, and accepts nothing (`Row.accepts_nothing_iff`).
-/
import Rv32Sim.Proofs.Isa.Decode
import Mathlib.Algebra.Ring.Nat

namespace Rv32Sim

namespace Word

/-! ## Words made of fields -/

/-- The field that tells the instructions of one opcode and funct3 apart. -/
def funct7 (w : Word) : BitVec 7 := w.extractLsb' 25 7

/-- The word with an opcode, funct3 and funct7, and zeros where operands go. -/
def ofFields (opcode : BitVec 7) (funct3 : BitVec 3) (funct7 : BitVec 7) : Word :=
  funct7 ++ 0#10 ++ funct3 ++ 0#5 ++ opcode

section OfFields

variable (a a' : BitVec 7) (b b' : BitVec 3) (c c' : BitVec 7)

theorem getLsbD_ofFields (i : Nat) :
    (ofFields a b c).getLsbD i =
      (a.getLsbD i || (decide (12 ≤ i) && b.getLsbD (i - 12)) ||
        (decide (25 ≤ i) && c.getLsbD (i - 25))) := by
  simp only [ofFields, BitVec.getLsbD_append, BitVec.getLsbD_zero]
  grind

/-- A mask made of fields takes a word apart into fields. -/
theorem and_ofFields (w : Word) :
    w &&& ofFields a b c = ofFields (w.opcode &&& a) (w.funct3 &&& b) (w.funct7 &&& c) := by
  apply BitVec.eq_of_getLsbD_eq
  intro i hi
  simp only [getLsbD_ofFields, opcode, funct3, funct7, BitVec.getLsbD_and,
    BitVec.getLsbD_extractLsb']
  grind

theorem or_ofFields :
    ofFields a b c ||| ofFields a' b' c' = ofFields (a ||| a') (b ||| b') (c ||| c') := by
  apply BitVec.eq_of_getLsbD_eq
  intro i hi
  simp only [getLsbD_ofFields, BitVec.getLsbD_or]
  grind

@[simp] theorem opcode_ofFields : (ofFields a b c).opcode = a := by
  apply BitVec.eq_of_getLsbD_eq
  intro i hi
  simp only [opcode, BitVec.getLsbD_extractLsb', getLsbD_ofFields]
  grind

@[simp] theorem funct3_ofFields : (ofFields a b c).funct3 = b := by
  apply BitVec.eq_of_getLsbD_eq
  intro i hi
  simp only [funct3, BitVec.getLsbD_extractLsb', getLsbD_ofFields]
  grind

@[simp] theorem funct7_ofFields : (ofFields a b c).funct7 = c := by
  apply BitVec.eq_of_getLsbD_eq
  intro i hi
  simp only [funct7, BitVec.getLsbD_extractLsb', getLsbD_ofFields]
  grind

variable {a a' b b' c c'}

theorem ofFields_inj : ofFields a b c = ofFields a' b' c' ↔ a = a' ∧ b = b' ∧ c = c' := by
  constructor
  · intro h
    have hopcode := congrArg opcode h
    have hfunct3 := congrArg funct3 h
    have hfunct7 := congrArg funct7 h
    rw [opcode_ofFields, opcode_ofFields] at hopcode
    rw [funct3_ofFields, funct3_ofFields] at hfunct3
    rw [funct7_ofFields, funct7_ofFields] at hfunct7
    exact ⟨hopcode, hfunct3, hfunct7⟩
  · rintro ⟨rfl, rfl, rfl⟩
    rfl

end OfFields

/-! ## Numbers at the places of fields -/

/-- A field holds the low bits of a number that it has room for exactly if it holds the
    number. -/
theorem eq_setWidth_iff {n : Nat} {f : Word} (hf : f.toNat < 2 ^ n) (x : BitVec n) :
    x = f.setWidth n ↔ x.toNat = f.toNat := by
  rw [← BitVec.toNat_inj, BitVec.toNat_setWidth, Nat.mod_eq_of_lt hf]

theorem getLsbD_eq_false_of_lt {w : Word} {n i : Nat} (hw : w.toNat < 2 ^ n) (hi : n ≤ i) :
    w.getLsbD i = false :=
  Nat.testBit_lt_two_pow (Nat.lt_of_lt_of_le hw (Nat.pow_le_pow_right (by decide) hi))

theorem eq_ofFields {w : Word} (hw : w.toNat < 2 ^ 7) : w = ofFields (w.setWidth 7) 0 0 := by
  apply BitVec.eq_of_getLsbD_eq
  intro i hi
  have hhigh : 7 ≤ i → w.getLsbD i = false := getLsbD_eq_false_of_lt hw
  simp only [getLsbD_ofFields, BitVec.getLsbD_setWidth]
  grind

theorem shiftLeft_funct3 {w : Word} (hw : w.toNat < 2 ^ 3) :
    w <<< 12 = ofFields 0 (w.setWidth 3) 0 := by
  apply BitVec.eq_of_getLsbD_eq
  intro i hi
  have hhigh : 3 ≤ i - 12 → w.getLsbD (i - 12) = false := getLsbD_eq_false_of_lt hw
  simp only [getLsbD_ofFields, BitVec.getLsbD_setWidth, BitVec.getLsbD_shiftLeft]
  grind

-- no bound here: what is too wide for funct7 is shifted out of the word
theorem shiftLeft_funct7 (w : Word) : w <<< 25 = ofFields 0 0 (w.setWidth 7) := by
  apply BitVec.eq_of_getLsbD_eq
  intro i hi
  simp only [getLsbD_ofFields, BitVec.getLsbD_setWidth, BitVec.getLsbD_shiftLeft]
  grind

/-- Fields agree under a mask exactly if they do at each of its bits. -/
theorem and_eq_and_iff {n : Nat} {x y m : BitVec n} :
    x &&& m = y &&& m ↔ ∀ i < n, m.getLsbD i = true → x.getLsbD i = y.getLsbD i := by
  constructor
  · intro h i _ hm
    have hbit := congrArg (BitVec.getLsbD · i) h
    simpa only [BitVec.getLsbD_and, hm, Bool.and_true] using hbit
  · intro h
    apply BitVec.eq_of_getLsbD_eq
    intro i hi
    rw [BitVec.getLsbD_and, BitVec.getLsbD_and]
    cases hm : m.getLsbD i with
    | false => rw [Bool.and_false, Bool.and_false]
    | true => rw [h i hi hm]

end Word

namespace Row

/-! ## What a row compares of a field -/

/-- The bits that a row compares of a field: all if it lists the field, or else none. -/
def cover (n : Nat) (field : Option Word) : BitVec n :=
  if field.isSome = true then BitVec.allOnes n else 0

@[simp] theorem cover_none (n : Nat) : cover n none = 0 := rfl

@[simp] theorem cover_some (n : Nat) (f : Word) : cover n (some f) = BitVec.allOnes n := rfl

/-- What a row asks for in a field: zero if it does not list the field. -/
def content (n : Nat) (field : Option Word) : BitVec n := (field.getD 0).setWidth n

@[simp] theorem content_none (n : Nat) : content n none = 0 := BitVec.setWidth_zero n 32

@[simp] theorem content_some (n : Nat) (f : Word) : content n (some f) = f.setWidth n := rfl

theorem content_and_cover (n : Nat) (field : Option Word) :
    content n field &&& cover n field = content n field := by
  cases field with
  | none => rw [cover_none, content_none, BitVec.and_self]
  | some f => rw [cover_some, BitVec.and_allOnes]

/-- A field passes the comparison exactly if it has the listed value, if there is one. -/
theorem and_cover_eq_content_iff {n : Nat} {field : Option Word}
    (hfits : ∀ f ∈ field, f.toNat < 2 ^ n) (x : BitVec n) :
    x &&& cover n field = content n field ↔ ∀ f ∈ field, x.toNat = f.toNat := by
  cases field with
  | none => simp
  | some f =>
    rw [cover_some, BitVec.and_allOnes, content_some, Word.eq_setWidth_iff (hfits f rfl)]
    exact ⟨fun h _ hmem => Option.some.inj hmem ▸ h, fun h => h f rfl⟩

/-! ## Masks and keys -/

/-- Listed fields that fit their places in an instruction word. -/
structure InRange (opcode : Word) (functs : List Word) : Prop where
  opcode_lt : opcode.toNat < 128
  funct3_lt : ∀ f ∈ functs[0]?, f.toNat < 8
  funct7_lt : ∀ f ∈ functs[1]?, f.toNat < 128

theorem fieldMask_eq (functs : List Word) :
    fieldMask functs =
      Word.ofFields (.allOnes 7) (cover 3 functs[0]?) (cover 7 functs[1]?) := by
  match functs with
  | [] => decide
  | [_] =>
    show opcodeMask ||| funct3Mask = Word.ofFields (.allOnes 7) (.allOnes 3) 0
    decide
  | _ :: _ :: _ =>
    show opcodeMask ||| funct3Mask ||| funct7Mask =
      Word.ofFields (.allOnes 7) (.allOnes 3) (.allOnes 7)
    decide

theorem fieldKey_eq {opcode : Word} {functs : List Word} (h : InRange opcode functs) :
    fieldKey opcode functs =
      Word.ofFields (opcode.setWidth 7) (content 3 functs[0]?) (content 7 functs[1]?) := by
  have hopcode : Word.ofFields (opcode.setWidth 7) 0 0 = opcode :=
    (Word.eq_ofFields h.opcode_lt).symm
  match functs with
  | [] => exact hopcode.symm
  | [funct3] =>
    have hfunct3 := Word.shiftLeft_funct3 (h.funct3_lt funct3 rfl)
    calc opcode ||| funct3 <<< 12
      _ = Word.ofFields (opcode.setWidth 7) 0 0 ||| Word.ofFields 0 (funct3.setWidth 3) 0 := by
        rw [hopcode, hfunct3]
      _ = Word.ofFields (opcode.setWidth 7) (funct3.setWidth 3) 0 := by
        rw [Word.or_ofFields]
        simp
  | funct3 :: funct7 :: _ =>
    have hfunct3 := Word.shiftLeft_funct3 (h.funct3_lt funct3 rfl)
    calc opcode ||| funct3 <<< 12 ||| funct7 <<< 25
      _ = Word.ofFields (opcode.setWidth 7) 0 0 ||| Word.ofFields 0 (funct3.setWidth 3) 0 |||
          Word.ofFields 0 0 (funct7.setWidth 7) := by
        rw [hopcode, hfunct3, Word.shiftLeft_funct7]
      _ = Word.ofFields (opcode.setWidth 7) (funct3.setWidth 3) (funct7.setWidth 7) := by
        rw [Word.or_ofFields, Word.or_ofFields]
        simp

/-! ## Rows that compare field by field -/

section Compare

variable {row : Row} {a a' : BitVec 7} {b b' : BitVec 3} {c c' : BitVec 7}

theorem accepts_iff_fields (hmask : row.mask = Word.ofFields a b c)
    (hkey : row.key = Word.ofFields a' b' c') (w : Word) :
    row.accepts w = true ↔
      w.opcode &&& a = a' ∧ w.funct3 &&& b = b' ∧ w.funct7 &&& c = c' := by
  rw [accepts, beq_iff_eq, hmask, hkey, Word.and_ofFields, Word.ofFields_inj]

/-- The bits of funct7 to compare replace those that the row compared before. -/
theorem mask_withFunct7Mask (hmask : row.mask = Word.ofFields a b c) (bits : Word) :
    (row.withFunct7Mask bits).mask = Word.ofFields a b (bits.setWidth 7) := by
  have hfunct7 : funct7Mask = Word.ofFields 0 0 (.allOnes 7) := by decide
  -- the old mask is kept but for its part in funct7, where the new bits have all the room
  have hothers : ~~~funct7Mask &&& Word.ofFields a b c = Word.ofFields a b 0 := by
    have hopcode : (~~~funct7Mask).opcode = .allOnes 7 := by decide
    have hfunct3 : (~~~funct7Mask).funct3 = .allOnes 3 := by decide
    have hnone : (~~~funct7Mask).funct7 = 0 := by decide
    rw [Word.and_ofFields, hopcode, hfunct3, hnone, BitVec.allOnes_and, BitVec.allOnes_and]
    exact congrArg (Word.ofFields a b) BitVec.zero_and
  show (row.mask &&& ~~~funct7Mask) ||| ((bits <<< 25) &&& funct7Mask) = _
  rw [hmask, BitVec.and_comm, hothers, Word.shiftLeft_funct7, hfunct7, Word.and_ofFields,
    Word.funct7_ofFields, BitVec.and_allOnes, Word.or_ofFields]
  simp

theorem key_withFunct7Mask (hmask : row.mask = Word.ofFields a b c)
    (hkey : row.key = Word.ofFields a' b' c') (bits : Word) :
    (row.withFunct7Mask bits).key =
      Word.ofFields (a' &&& a) (b' &&& b) (c' &&& bits.setWidth 7) := by
  show row.key &&& (row.withFunct7Mask bits).mask = _
  rw [mask_withFunct7Mask hmask, hkey, Word.and_ofFields, Word.opcode_ofFields,
    Word.funct3_ofFields, Word.funct7_ofFields]

end Compare

/-! ## Rows that accept nothing -/

/-- A row accepts a word, its key for one, exactly if its key lies inside its mask. -/
theorem exists_accepts_iff (row : Row) :
    (∃ w, row.accepts w = true) ↔
      ∀ i, row.key.getLsbD i = true → row.mask.getLsbD i = true := by
  constructor
  · -- what a word keeps under the mask has no bit beside it
    rintro ⟨w, haccepts⟩ i hi
    have hkey : w &&& row.mask = row.key := beq_iff_eq.1 haccepts
    rw [← hkey, BitVec.getLsbD_and, Bool.and_eq_true] at hi
    exact hi.2
  · intro hinside
    have hkey : row.key &&& row.mask = row.key := by
      apply BitVec.eq_of_getLsbD_eq
      intro i _
      rw [BitVec.getLsbD_and]
      cases hi : row.key.getLsbD i with
      | false => rw [Bool.false_and]
      | true => rw [hinside i hi, Bool.and_self]
    exact ⟨row.key, beq_iff_eq.2 hkey⟩

/-- A row accepts nothing exactly if its key has a bit outside its mask. -/
theorem accepts_nothing_iff (row : Row) :
    (∀ w, row.accepts w = false) ↔
      ∃ i, row.key.getLsbD i = true ∧ row.mask.getLsbD i = false := by
  simpa using not_congr (exists_accepts_iff row)

/-! ## Rows given by their fields -/

section Listed

variable {format : Format} {opcode : Word} {functs : List Word}

theorem mask_ofFields (m : Mnemonic) (hformat : format ≠ .exact) :
    (ofFields m format opcode functs).mask =
      Word.ofFields (.allOnes 7) (cover 3 functs[0]?) (cover 7 functs[1]?) := by
  rw [ofFields, if_neg hformat]
  exact fieldMask_eq functs

theorem key_ofFields (m : Mnemonic) (hformat : format ≠ .exact) (h : InRange opcode functs) :
    (ofFields m format opcode functs).key =
      Word.ofFields (opcode.setWidth 7) (content 3 functs[0]?) (content 7 functs[1]?) := by
  rw [ofFields, if_neg hformat]
  exact fieldKey_eq h

theorem accepts_ofFields_iff (m : Mnemonic) (hformat : format ≠ .exact)
    (h : InRange opcode functs) (w : Word) :
    (ofFields m format opcode functs).accepts w = true ↔
      w.opcode.toNat = opcode.toNat ∧ (∀ f ∈ functs[0]?, w.funct3.toNat = f.toNat) ∧
        ∀ f ∈ functs[1]?, w.funct7.toNat = f.toNat := by
  rw [accepts_iff_fields (mask_ofFields m hformat) (key_ofFields m hformat h),
    BitVec.and_allOnes, Word.eq_setWidth_iff h.opcode_lt,
    and_cover_eq_content_iff h.funct3_lt, and_cover_eq_content_iff h.funct7_lt]

theorem accepts_withFunct7Mask_iff (m : Mnemonic) (hformat : format ≠ .exact)
    (h : InRange opcode functs) (bits w : Word) :
    ((ofFields m format opcode functs).withFunct7Mask bits).accepts w = true ↔
      w.opcode.toNat = opcode.toNat ∧ (∀ f ∈ functs[0]?, w.funct3.toNat = f.toNat) ∧
        ∀ i < 7, bits.getLsbD i = true →
          w.funct7.getLsbD i = (functs[1]?.getD 0).getLsbD i := by
  have hmask : (ofFields m format opcode functs).mask = _ := mask_ofFields m hformat
  have hkey : (ofFields m format opcode functs).key = _ := key_ofFields m hformat h
  rw [accepts_iff_fields (mask_withFunct7Mask hmask bits) (key_withFunct7Mask hmask hkey bits),
    BitVec.and_allOnes, BitVec.and_allOnes, Word.eq_setWidth_iff h.opcode_lt, content_and_cover,
    and_cover_eq_content_iff h.funct3_lt, Word.and_eq_and_iff]
  -- below the seventh bit a number and its low seven bits are the same
  simp +contextual only [content, BitVec.getLsbD_setWidth, decide_true, Bool.true_and]

/-- **Listed fields.** A row of a format with operands whose listed fields are in range accepts
    a word exactly if the word has its opcode, and its funct3 and funct7 as far as they are
    listed. Told to compare some bits of funct7, it accepts a word exactly if the word has its
    opcode, its funct3 if that is listed, and the listed funct7, or zeros if none is, at those
    of the seven bits. Whatever the fields, the row accepts nothing exactly if its key has a bit
    outside its mask. -/
theorem listed_fields_exact (m : Mnemonic) (hformat : format ≠ .exact) (opcode : Word)
    (functs : List Word) :
    let row := ofFields m format opcode functs
    (InRange opcode functs → ∀ w : Word,
      (row.accepts w = true ↔
        w.opcode.toNat = opcode.toNat ∧ (∀ f ∈ functs[0]?, w.funct3.toNat = f.toNat) ∧
          ∀ f ∈ functs[1]?, w.funct7.toNat = f.toNat) ∧
      ∀ bits : Word, (row.withFunct7Mask bits).accepts w = true ↔
        w.opcode.toNat = opcode.toNat ∧ (∀ f ∈ functs[0]?, w.funct3.toNat = f.toNat) ∧
          ∀ i < 7, bits.getLsbD i = true →
            w.funct7.getLsbD i = (functs[1]?.getD 0).getLsbD i) ∧
    ((∀ w, row.accepts w = false) ↔
      ∃ i, row.key.getLsbD i = true ∧ row.mask.getLsbD i = false) := by
  intro row
  refine ⟨fun hrange w => ⟨?_, fun bits => ?_⟩, ?_⟩
  · exact accepts_ofFields_iff m hformat hrange w
  · exact accepts_withFunct7Mask_iff m hformat hrange bits w
  · exact accepts_nothing_iff row

/-- A right shift with every bit of funct7 set is not the listed one, but it is as soon as one
    bit alone is compared. A row that lists no funct3 does not compare it under such a mask
    either. With a ninth bit in its opcode a row accepts nothing. -/
theorem listed_fields_exact_of_shift :
    let shift := ofFields .sra .r 0b0110011 [0b101, 0b0100000]
    let fence := ofFields .fence .i 0b0001111 []
    InRange 0b0110011 [0b101, 0b0100000] ∧ InRange 0b0001111 [] ∧
    shift.accepts 0xFFF150B3 = false ∧ (shift.withFunct7Mask 0b0100000).accepts 0xFFF150B3 = true ∧
    (fence.withFunct7Mask 0b0100000).accepts 0xBE00700F = true ∧
    ∀ w, (ofFields .sra .r 0b100110011 [0b101, 0b0100000]).accepts w = false := by
  intro shift fence
  have hshift : InRange 0b0110011 [0b101, 0b0100000] := ⟨by decide, by simp, by simp⟩
  have hfence : InRange 0b0001111 [] := ⟨by decide, by simp, by simp⟩
  have hr : Format.r ≠ .exact := by decide
  have hi : Format.i ≠ .exact := by decide
  obtain ⟨hlisted, hcompared⟩ :=
    (listed_fields_exact .sra hr 0b0110011 [0b101, 0b0100000]).1 hshift 0xFFF150B3
  obtain ⟨-, hunlisted⟩ := (listed_fields_exact .fence hi 0b0001111 []).1 hfence 0xBE00700F
  obtain ⟨-, hnothing⟩ := listed_fields_exact .sra hr 0b100110011 [0b101, 0b0100000]
  refine ⟨hshift, hfence, ?_, ?_, ?_, ?_⟩
  · rw [Bool.eq_false_iff]
    intro haccepts
    obtain ⟨-, -, hfunct7⟩ := hlisted.1 haccepts
    exact absurd (hfunct7 0b0100000 rfl) (by decide)
  · refine (hcompared 0b0100000).2 ⟨by decide, ?_, by decide⟩
    rintro f ⟨⟩
    decide
  · exact (hunlisted 0b0100000).2 ⟨by decide, by simp, by decide⟩
  · exact hnothing.2 ⟨8, by decide, by decide⟩

end Listed

end Row

end Rv32Sim
