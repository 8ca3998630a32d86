/-
  Rv32Sim.Proofs.Isa.Decode

  What decoding answers, in terms of the rows of the table: nothing exactly when
  no row has the opcode of the word (`decode_build_eq_none_iff`), and otherwise a
  row that accepts the word, or a reserved encoding if none does
  (`decode_build_cases`). An instruction whose row lists funct3 and no more is given
  by opcode and funct3 (`decode_of_funct3`).
-/
import Rv32Sim.Isa.Table

namespace Rv32Sim

namespace Word

/-- The opcode is the number in the low seven bits of a word. -/
theorem toNat_opcode (w : Word) : w.opcode.toNat = w.toNat % 128 := by
  rw [opcode, BitVec.extractLsb'_toNat, Nat.shiftRight_zero]

/-! The offsets of branches and jumps are even. -/

theorem getLsbD_immB_zero (w : Word) : w.immB.getLsbD 0 = false := by
  rw [immB, BitVec.getLsbD_append]
  rfl

theorem getLsbD_immJ_zero (w : Word) : w.immJ.getLsbD 0 = false := by
  rw [immJ, BitVec.getLsbD_append]
  rfl

/-- The field that tells the instructions of one opcode apart. -/
def funct3 (w : Word) : BitVec 3 := w.extractLsb' 12 3

/-- The bits of a word that a row with an opcode and funct3 compares. -/
theorem and_fieldMask (w f : Word) :
    w &&& Row.fieldMask [f] = w.opcode.setWidth 32 ||| w.funct3.setWidth 32 <<< 12 := by
  -- a mask is a widened run of ones, which `getLsbD` can be asked about
  have hopcode : Row.opcodeMask = (BitVec.allOnes 7).setWidth 32 := by decide
  have hfunct3 : Row.funct3Mask = (BitVec.allOnes 3).setWidth 32 <<< 12 := by decide
  rw [Row.fieldMask, hopcode, hfunct3]
  apply BitVec.eq_of_getLsbD_eq
  intro i hi
  simp only [opcode, funct3, BitVec.getLsbD_and, BitVec.getLsbD_or, BitVec.getLsbD_shiftLeft,
    BitVec.getLsbD_setWidth, BitVec.getLsbD_extractLsb', BitVec.getLsbD_allOnes]
  grind

end Word

/-! ## Rows -/

namespace Row

/-- A row whose mask covers the whole word accepts its key and nothing else. -/
theorem accepts_iff_of_mask_allOnes {row : Row} (h : row.mask = BitVec.allOnes 32) (w : Word) :
    row.accepts w = true ↔ w = row.key := by
  rw [accepts, h, BitVec.and_allOnes, beq_iff_eq]

variable {row : Row} {w : Word}

/-- A row that compares the whole of a field accepts words with that field of its key only. -/
theorem field_of_accepts {start len : Nat}
    (hmask : row.mask.extractLsb' start len = BitVec.allOnes len)
    (haccepts : row.accepts w = true) :
    w.extractLsb' start len = row.key.extractLsb' start len := by
  have hkey : w &&& row.mask = row.key := beq_iff_eq.1 haccepts
  rw [← hkey, BitVec.extractLsb'_and, hmask, BitVec.and_allOnes]

theorem opcode_of_accepts (hmask : row.mask.opcode = BitVec.allOnes 7)
    (haccepts : row.accepts w = true) : w.opcode = row.key.opcode :=
  field_of_accepts hmask haccepts

theorem funct3_of_accepts (hmask : row.mask.funct3 = BitVec.allOnes 3)
    (haccepts : row.accepts w = true) : w.funct3 = row.key.funct3 :=
  field_of_accepts hmask haccepts

end Row

/-! ## Decoding with a table -/

namespace Decoder

theorem mem_classOf_build {rows : List Row} {opcode : BitVec 7} {row : Row} :
    row ∈ (build rows).classOf opcode ↔ row ∈ rows ∧ row.opcode.toNat = opcode.toNat := by
  rw [classOf_build, List.mem_filter, beq_iff_eq]

/-- A word is no instruction exactly when no row has its opcode. -/
theorem decode_build_eq_none_iff (rows : List Row) (w : Word) :
    (build rows).decode w = none ↔ ∀ row ∈ rows, row.opcode.toNat ≠ w.toNat % 128 := by
  have hclass : (build rows).classOf w.opcode = [] ↔
      ∀ row ∈ rows, row.opcode.toNat ≠ w.toNat % 128 := by
    rw [List.eq_nil_iff_forall_not_mem]
    simp only [mem_classOf_build, not_and, Word.toNat_opcode, ne_eq]
  rw [← hclass]
  unfold decode
  split
  · next h => exact ⟨fun _ => h, fun _ => rfl⟩
  · next rows' h =>
    refine ⟨fun hnone => ?_, fun hnil => absurd hnil h⟩
    split at hnone <;> cases hnone

/-- A word that decodes is accepted by a row with its opcode, or else by no row with its
    opcode, and is a reserved encoding then. -/
theorem decode_build_cases {rows : List Row} {w : Word} {d : Decoded}
    (h : (build rows).decode w = some d) :
    (∃ row ∈ rows, row.opcode.toNat = w.toNat % 128 ∧ row.accepts w = true ∧
      d = ⟨row.mnemonic, .ofWord row.mnemonic w row.format⟩) ∨
    ((∀ row ∈ rows, row.opcode.toNat = w.toNat % 128 → row.accepts w = false) ∧
      d = ⟨.reserved, .none⟩) := by
  unfold decode at h
  split at h
  · cases h
  split at h
  · next row hfind =>
    obtain ⟨hrow, hop⟩ := mem_classOf_build.1 (List.mem_of_find?_eq_some hfind)
    have haccepts := List.find?_some hfind
    rw [Word.toNat_opcode] at hop
    exact .inl ⟨row, hrow, hop, haccepts, (Option.some.inj h).symm⟩
  · next hfind =>
    refine .inr ⟨?_, (Option.some.inj h).symm⟩
    intro row hrow hop
    rw [← Word.toNat_opcode] at hop
    have hmem := mem_classOf_build.2 ⟨hrow, hop⟩
    simpa only [Bool.not_eq_true] using List.find?_eq_none.1 hfind row hmem

/-- A word of a known opcode that no row accepts is a reserved encoding. -/
theorem decode_build_eq_reserved {rows : List Row} {w : Word}
    (hop : ∃ row ∈ rows, row.opcode.toNat = w.toNat % 128)
    (haccepts : ∀ row ∈ rows, row.accepts w = false) :
    (build rows).decode w = some ⟨.reserved, .none⟩ := by
  cases h : (build rows).decode w with
  | none =>
    obtain ⟨row, hrow, heq⟩ := hop
    exact absurd heq ((decode_build_eq_none_iff rows w).1 h row hrow)
  | some d =>
    obtain ⟨row, hrow, -, hacc, -⟩ | ⟨-, rfl⟩ := decode_build_cases h
    · rw [haccepts row hrow] at hacc
      cases hacc
    · rfl

/-- A word that one row of its opcode accepts and no other decodes by that row. -/
theorem decode_build_eq_of_unique {rows : List Row} {w : Word} {row : Row} (hrow : row ∈ rows)
    (hop : row.opcode.toNat = w.toNat % 128) (haccepts : row.accepts w = true)
    (hunique : ∀ other ∈ rows, other.opcode.toNat = w.toNat % 128 →
      other.accepts w = true → other = row) :
    (build rows).decode w = some ⟨row.mnemonic, .ofWord row.mnemonic w row.format⟩ := by
  cases hd : (build rows).decode w with
  | none => exact absurd hop ((decode_build_eq_none_iff rows w).1 hd row hrow)
  | some d =>
    obtain ⟨other, hother, hop', haccepts', rfl⟩ | ⟨hnone, -⟩ := decode_build_cases hd
    · rw [hunique other hother hop' haccepts']
    · rw [hnone row hrow hop] at haccepts
      cases haccepts

/-! ## Rows that list funct3 and no more -/

theorem isaTable_funct3 : ∀ row ∈ isaTable, row.mask = Row.fieldMask [0] →
    row.opcode.toNat = row.key.opcode.toNat ∧
      row.key = row.key.opcode.setWidth 32 ||| row.key.funct3.setWidth 32 <<< 12 := by
  decide +kernel

-- no other row of the opcode has the same funct3, not even one that lists funct7 as well
theorem isaTable_funct3_distinct : ∀ row ∈ isaTable, row.mask = Row.fieldMask [0] →
    ∀ other ∈ isaTable, other.opcode = row.opcode →
      other.mask.funct3 = BitVec.allOnes 3 ∧
        (other.key.funct3 = row.key.funct3 → other = row) := by
  decide +kernel

/-- The opcode and funct3 of such a row decide how a word decodes. -/
theorem decode_of_funct3 {w : Word} {row : Row} (hrow : row ∈ isaTable)
    (hmask : row.mask = Row.fieldMask [0]) (hop : w.opcode = row.key.opcode)
    (hfunct3 : w.funct3 = row.key.funct3) :
    standard.decode w = some ⟨row.mnemonic, .ofWord row.mnemonic w row.format⟩ := by
  obtain ⟨hopcode, hkey⟩ := isaTable_funct3 row hrow hmask
  have hnumber : row.opcode.toNat = w.toNat % 128 := by
    rw [hopcode, ← hop, Word.toNat_opcode]
  apply decode_build_eq_of_unique hrow hnumber
  · rw [Row.accepts, hmask, Word.and_fieldMask, hop, hfunct3, ← hkey, beq_iff_eq]
  · -- another row that accepts the word has its funct3 too
    intro other hother hop' haccepts'
    have hsame : other.opcode = row.opcode := BitVec.eq_of_toNat_eq (hop'.trans hnumber.symm)
    obtain ⟨hmask', hunique⟩ := isaTable_funct3_distinct row hrow hmask other hother hsame
    have hother3 := Row.funct3_of_accepts hmask' haccepts'
    exact hunique (hother3.symm.trans hfunct3)

end Decoder

end Rv32Sim
