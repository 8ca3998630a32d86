/-
  Rv32Sim.Proofs.Isa.RoundTrip

  Encoding and decoding. The operands of a format and the bits of a word that neither the
  opcode nor a funct field takes determine each other (`Operands.fields_ofWord`,
  `Operands.ofWord_fields`); the rest of an assembled word is the key of its row. So decoding
  inverts encoding, and encoding gives a word back up to the bits that its row does not
  compare.

  ADD, SUB and the right shifts compare one bit of funct7, so ADD accepts the words of MUL,
  and SRL those of DIVU. What counts is the first row that accepts a word: no row before
  that of an assembled word does (`isaTable_apart`).
-/
import Rv32Sim.Isa.Table
import Rv32Sim.Proofs.Isa.Scan

namespace Rv32Sim

/-! ## Masks bit by bit -/

namespace Row

theorem getLsbD_opcodeMask (i : Nat) : opcodeMask.getLsbD i = decide (i < 7) := by
  have h : opcodeMask = (BitVec.allOnes 7).setWidth 32 := by decide
  rw [h, BitVec.getLsbD_setWidth, BitVec.getLsbD_allOnes]
  grind

theorem getLsbD_funct3Mask (i : Nat) :
    funct3Mask.getLsbD i = (decide (12 ≤ i) && decide (i < 15)) := by
  have h : funct3Mask = (BitVec.allOnes 3).setWidth 32 <<< 12 := by decide
  rw [h, BitVec.getLsbD_shiftLeft, BitVec.getLsbD_setWidth, BitVec.getLsbD_allOnes]
  grind

theorem getLsbD_funct7Mask (i : Nat) :
    funct7Mask.getLsbD i = (decide (25 ≤ i) && decide (i < 32)) := by
  have h : funct7Mask = (BitVec.allOnes 7).setWidth 32 <<< 25 := by decide
  rw [h, BitVec.getLsbD_shiftLeft, BitVec.getLsbD_setWidth, BitVec.getLsbD_allOnes]
  grind

end Row

/-- The bits of an immediate field that hold a shift amount. -/
theorem getLsbD_shiftMask (i : Nat) : (0x1F : BitVec 12).getLsbD i = decide (i < 5) := by
  have h : (0x1F : BitVec 12) = (BitVec.allOnes 5).setWidth 12 := by decide
  rw [h, BitVec.getLsbD_setWidth, BitVec.getLsbD_allOnes]
  grind

/-- The bits of a word that an instruction of a format fills with its opcode and its funct
    fields. A shift amount leaves room for funct7. -/
def Format.fixedMask (m : Mnemonic) : Format → Word
  | exact => BitVec.allOnes 32
  | r => Row.opcodeMask ||| Row.funct3Mask ||| Row.funct7Mask
  | i =>
    if m.isImmediateShift = true then Row.opcodeMask ||| Row.funct3Mask ||| Row.funct7Mask
    else Row.opcodeMask ||| Row.funct3Mask
  | s => Row.opcodeMask ||| Row.funct3Mask
  | b => Row.opcodeMask ||| Row.funct3Mask
  | u => Row.opcodeMask
  | j => Row.opcodeMask

/-! ## Operands and their fields -/

namespace Operands

/-- Operands that an instruction of a format can have: shift amounts have five bits, offsets
    are even, and an upper immediate has nothing below its twenty bits. -/
def InRange (m : Mnemonic) : Format → Operands → Prop
  | .exact, .none => True
  | .r, .r _ _ _ => True
  | .i, .i _ _ imm => m.isImmediateShift = true → imm.toNat < 32
  | .s, .s _ _ _ => True
  | .b, .b _ _ imm => imm.getLsbD 0 = false
  | .u, .u _ imm => 4096 ∣ imm.toNat
  | .j, .j _ imm => imm.getLsbD 0 = false
  | _, _ => False

theorem inRange_ofWord (m : Mnemonic) (w : Word) (f : Format) : (ofWord m w f).InRange m f := by
  cases f with
  | i =>
    intro hm
    rw [if_pos hm, BitVec.toNat_and]
    exact Nat.lt_of_le_of_lt Nat.and_le_right (by decide)
  | b => exact w.getLsbD_immB_zero
  | u =>
    show 4096 ∣ w.immU.toNat
    rw [Word.immU, BitVec.toNat_append, BitVec.toNat_zero, Nat.or_zero, Nat.shiftLeft_eq]
    exact Nat.dvd_mul_left _ _
  | j => exact w.getLsbD_immJ_zero
  | _ => trivial

/-- The fields of the operands of a word are the bits of the word outside opcode and funct. -/
theorem fields_ofWord (m : Mnemonic) (w : Word) (f : Format) :
    (ofWord m w f).fields = w &&& ~~~f.fixedMask m := by
  apply BitVec.eq_of_getLsbD_eq
  intro i hi
  -- every bit of a field goes back to where it came from
  by_cases hm : m.isImmediateShift = true <;> cases f <;>
    simp only [ofWord, fields, Format.fixedMask, Word.rd, Word.rs1, Word.rs2, Word.immI,
      Word.immS, Word.immB, Word.immU, Word.immJ, hm, if_true, if_false, Bool.false_eq_true,
      BitVec.getLsbD_append, BitVec.getLsbD_and, BitVec.getLsbD_not, BitVec.getLsbD_or,
      BitVec.getLsbD_extractLsb', BitVec.getLsbD_zero, BitVec.getLsbD_allOnes,
      getLsbD_shiftMask, Row.getLsbD_opcodeMask, Row.getLsbD_funct3Mask,
      Row.getLsbD_funct7Mask] <;>
    grind

/-- The operands of a format are read back from their fields. -/
theorem ofWord_fields {m : Mnemonic} {f : Format} {ops : Operands} (h : ops.InRange m f) :
    ofWord m ops.fields f = ops := by
  cases f <;> cases ops <;> try contradiction
  case exact.none => rfl
  case i.i rs1 rd imm =>
    have himm : (fields (.i rs1 rd imm)).immI = imm := by
      apply BitVec.eq_of_getLsbD_eq
      intro i hi
      simp only [fields, Word.immI, BitVec.getLsbD_append, BitVec.getLsbD_extractLsb']
      grind
    have hamount : (if m.isImmediateShift = true then imm &&& 0x1F else imm) = imm := by
      split
      next hm =>
        -- five bits are what a number below 32 has
        apply BitVec.eq_of_toNat_eq
        rw [BitVec.toNat_and]
        exact (Nat.and_two_pow_sub_one_eq_mod _ 5).trans (Nat.mod_eq_of_lt (h hm))
      next => rfl
    simp only [ofWord, himm, hamount]
    congr 1 <;>
      (apply BitVec.eq_of_getLsbD_eq
       intro i hi
       simp only [fields, Word.rs1, Word.rd, BitVec.getLsbD_append, BitVec.getLsbD_extractLsb']
       grind)
  case u.u rd imm =>
    have hlow : ∀ i < 12, imm.getLsbD i = false := by
      intro i hi
      have hzero : imm.setWidth 12 = 0#12 :=
        BitVec.eq_of_toNat_eq ((imm.toNat_setWidth 12).trans (Nat.mod_eq_zero_of_dvd h))
      have hbit := congrArg (BitVec.getLsbD · i) hzero
      simpa [hi] using hbit
    simp only [ofWord, fields, Word.rd, Word.immU]
    congr 1 <;>
      (apply BitVec.eq_of_getLsbD_eq
       intro i hi
       simp only [BitVec.getLsbD_append, BitVec.getLsbD_extractLsb']
       grind)
  all_goals
    simp only [InRange] at h
    simp only [ofWord, fields, Word.rd, Word.rs1, Word.rs2, Word.immS, Word.immB, Word.immJ]
    congr 1 <;>
      (apply BitVec.eq_of_getLsbD_eq
       intro i hi
       simp only [BitVec.getLsbD_append, BitVec.getLsbD_extractLsb']
       grind)

/-- Operands fill no bit of the opcode or of a funct field. -/
theorem fields_and_not_fixedMask {m : Mnemonic} {f : Format} {ops : Operands}
    (h : ops.InRange m f) : ops.fields &&& ~~~f.fixedMask m = ops.fields := by
  rw [← fields_ofWord, ofWord_fields h]

/-- Reading operands looks at no bit of the opcode or of a funct field. -/
theorem ofWord_and_not_fixedMask (m : Mnemonic) (w : Word) (f : Format) :
    ofWord m (w &&& ~~~f.fixedMask m) f = ofWord m w f := by
  rw [← fields_ofWord, ofWord_fields (inRange_ofWord m w f)]

end Operands

/-! ## The rows of the tables -/

namespace Row

/-- The bits that opcode and funct fields fill in the words of a row. -/
def fixedMask (row : Row) : Word := row.format.fixedMask row.mnemonic

end Row

theorem isaTable_filed : ∀ row ∈ isaTable, row.Filed := by
  have h : ∀ row ∈ isaTable,
      row.mask.opcode = BitVec.allOnes 7 ∧ row.key.opcode = row.opcode.setWidth 7 := by
    decide +kernel
  exact fun row hrow => ⟨(h row hrow).1, (h row hrow).2⟩

theorem isaTable_opcode_lt : ∀ row ∈ isaTable, row.opcode.toNat < 128 := by
  decide +kernel

/-- A key lies inside its mask, and a mask asks for no bit of an operand. -/
theorem isaTable_fixed : ∀ row ∈ isaTable,
    row.key &&& row.mask = row.key ∧ row.mask &&& row.fixedMask = row.mask := by
  decide +kernel

-- the words that ADD accepts and MUL does as well are none that are assembled from ADD
theorem isaTable_apart : isaTable.Pairwise fun before row =>
    row.key &&& before.mask ≠ before.key &&& row.fixedMask := by
  decide +kernel

/-- An instruction has one row. -/
theorem isaTable_find : ∀ row ∈ isaTable,
    isaTable.find? (·.mnemonic == row.mnemonic) = some row := by
  decide +kernel

/-- The bits that an instruction leaves open: it gives them no meaning and compares them to
    nothing. -/
def Mnemonic.ignoredBits : Mnemonic → Word
  | add | sub | srl | sra | srli | srai => 0xBE000000
  | fence => 0x00007000
  | _ => 0

theorem isaTable_ignored : ∀ row ∈ isaTable,
    row.mask ||| ~~~row.fixedMask = ~~~row.mnemonic.ignoredBits := by
  decide +kernel

namespace Row

variable {row : Row} {ops : Operands}

/-- Outside its operands an assembled word is the key of its row. -/
theorem assemble_and_fixedMask (hrow : row ∈ isaTable)
    (hops : ops.InRange row.mnemonic row.format) :
    row.assemble ops &&& row.fixedMask = row.key := by
  obtain ⟨hkey, hmask⟩ := isaTable_fixed row hrow
  have hfixed : row.key &&& row.fixedMask = row.key := by
    rw [← hkey, BitVec.and_assoc, hmask]
  have hfields : ops.fields &&& row.fixedMask = 0 := by
    rw [← Operands.fields_and_not_fixedMask hops, BitVec.and_assoc, fixedMask,
      BitVec.and_comm (~~~_), BitVec.and_not_self]
    exact BitVec.and_zero
  rw [assemble, BitVec.and_or_distrib_right, hfixed, hfields]
  exact BitVec.or_zero

/-- The operands of an assembled word are those that it was assembled from. -/
theorem ofWord_assemble (hrow : row ∈ isaTable)
    (hops : ops.InRange row.mnemonic row.format) :
    Operands.ofWord row.mnemonic (row.assemble ops) row.format = ops := by
  have hkey : row.key &&& ~~~row.fixedMask = 0 := by
    rw [← assemble_and_fixedMask hrow hops, BitVec.and_assoc, BitVec.and_not_self]
    exact BitVec.and_zero
  have hfields : row.assemble ops &&& ~~~row.fixedMask = ops.fields := by
    rw [assemble, BitVec.and_or_distrib_right, hkey, fixedMask,
      Operands.fields_and_not_fixedMask hops]
    exact BitVec.zero_or
  rw [← Operands.ofWord_and_not_fixedMask]
  show Operands.ofWord row.mnemonic (row.assemble ops &&& ~~~row.fixedMask) row.format = ops
  rw [hfields, Operands.ofWord_fields hops]

/-- A row accepts the words that are assembled from it. -/
theorem accepts_assemble (hrow : row ∈ isaTable)
    (hops : ops.InRange row.mnemonic row.format) : row.accepts (row.assemble ops) = true := by
  obtain ⟨hkey, hmask⟩ := isaTable_fixed row hrow
  rw [accepts, ← hmask, BitVec.and_comm row.mask, ← BitVec.and_assoc,
    assemble_and_fixedMask hrow hops, hkey, beq_self_eq_true]

/-- It is the first row to accept them. -/
theorem find?_accepts_assemble (hrow : row ∈ isaTable)
    (hops : ops.InRange row.mnemonic row.format) :
    isaTable.find? (·.accepts (row.assemble ops)) = some row := by
  rw [List.find?_eq_some_iff_append]
  refine ⟨accepts_assemble hrow hops, ?_⟩
  obtain ⟨front, back, htable⟩ := List.append_of_mem hrow
  refine ⟨front, back, htable, fun before hbefore => ?_⟩
  have hapart : row.key &&& before.mask ≠ before.key &&& row.fixedMask := by
    have hpairs := isaTable_apart
    rw [htable] at hpairs
    exact (List.pairwise_append.1 hpairs).2.2 before hbefore row List.mem_cons_self
  rw [Bool.not_eq_true', Bool.eq_false_iff]
  intro haccepts
  -- the two would agree where both compare
  apply hapart
  have hkey : row.assemble ops &&& before.mask = before.key := beq_iff_eq.1 haccepts
  rw [← hkey, ← assemble_and_fixedMask hrow hops, BitVec.and_assoc, BitVec.and_assoc,
    BitVec.and_comm before.mask]

end Row

namespace Decoder

/-- Decoding inverts encoding. -/
theorem decode_assemble {row : Row} {ops : Operands} (hrow : row ∈ isaTable)
    (hops : ops.InRange row.mnemonic row.format) :
    standard.decode (row.assemble ops) = some ⟨row.mnemonic, ops⟩ := by
  have hop : row.opcode.toNat = (row.assemble ops).toNat % 128 := by
    rw [← Word.toNat_opcode]
    exact (isaTable_filed row hrow).opcode_of_accepts (isaTable_opcode_lt row hrow)
      (Row.accepts_assemble hrow hops)
  have hdecode : standard.decode (row.assemble ops) = some (scan isaTable _) :=
    decode_build_eq_scan isaTable_filed isaTable_opcode_lt ⟨row, hrow, hop⟩
  rw [hdecode, scan, Row.find?_accepts_assemble hrow hops]
  exact congrArg (fun operands => some (Decoded.mk row.mnemonic operands))
    (Row.ofWord_assemble hrow hops)

/-- Encoding what a word decodes to gives the word back, without its ignored bits. -/
theorem assemble?_of_decode {w : Word} {d : Decoded} (hd : standard.decode w = some d)
    (hassigned : d.mnemonic ≠ .reserved) :
    d.assemble? = some (w &&& ~~~d.mnemonic.ignoredBits) := by
  obtain ⟨row, hrow, -, haccepts, rfl⟩ | ⟨-, rfl⟩ := decode_build_cases hd
  · have hkey : w &&& row.mask = row.key := beq_iff_eq.1 haccepts
    have hfields : (Operands.ofWord row.mnemonic w row.format).fields = w &&& ~~~row.fixedMask :=
      Operands.fields_ofWord row.mnemonic w row.format
    have hword : row.assemble (.ofWord row.mnemonic w row.format) =
        w &&& ~~~row.mnemonic.ignoredBits := by
      rw [Row.assemble, ← hkey, hfields, ← BitVec.and_or_distrib_left, isaTable_ignored row hrow]
    rw [Decoded.assemble?, isaTable_find row hrow, Option.map_some, hword]
  · exact absurd rfl hassigned

/-- **Decoding and encoding.** The word of a row's key with any operands in range decodes to
    the instruction of the row with these operands, and to encode what a word decodes to,
    unless it is a reserved encoding, gives back the word but for the bits that its
    instruction ignores. -/
theorem encoding_round_trip :
    (∀ row ∈ isaTable, ∀ ops : Operands, ops.InRange row.mnemonic row.format →
      standard.decode (row.assemble ops) = some ⟨row.mnemonic, ops⟩) ∧
    (∀ (w : Word) (d : Decoded), standard.decode w = some d → d.mnemonic ≠ .reserved →
      d.assemble? = some (w &&& ~~~d.mnemonic.ignoredBits)) :=
  ⟨fun _ hrow _ hops => decode_assemble hrow hops,
    fun _ _ hd hassigned => assemble?_of_decode hd hassigned⟩

/-- The jump back by the greatest offset, and SRAI with each bit of funct7 set: all but one
    of these are lost. -/
theorem encoding_round_trip_of_jump :
    let row := Row.ofFields .jal .j 0b1101111 []
    standard.decode (row.assemble (.j 1 0x100000)) = some ⟨.jal, .j 1 0x100000⟩ ∧
    Decoded.assemble? ⟨.srai, .i 3 2 31⟩ = some (0xFFF1D113 &&& 0x41FFFFFF) := by
  intro row
  obtain ⟨hencoded, hdecoded⟩ := encoding_round_trip
  have hrow : row ∈ isaTable := by decide
  have hrange : (Operands.j 1 0x100000).InRange row.mnemonic row.format := by
    show (0x100000 : BitVec 21).getLsbD 0 = false
    decide
  refine ⟨hencoded row hrow _ hrange, ?_⟩
  have hsrai : standard.decode 0xFFF1D113 = some ⟨.srai, .i 3 2 31⟩ := by decide +kernel
  exact hdecoded 0xFFF1D113 _ hsrai (by decide)

end Decoder

end Rv32Sim
