/-
  Rv32Sim.Proofs.Checked.Decode

  Decoding to operands whose types promise nothing: register numbers are bytes and immediates
  are words, put together by shifts and masks, and the opcode is a position in the table of
  classes that may be past its end. What comes out is what decoding gives elsewhere
  (`checkedDecode_eq`), so the operands of a word are of a format that its instruction can
  use, their register numbers are some and their immediates fit (`fits_of_checkedDecode`).
-/
import Rv32Sim.Proofs.Hart.Effect
import Rv32Sim.Proofs.Isa.RoundTrip
import Rv32Sim.Proofs.Checked.Word

namespace Rv32Sim

/-! ## Fields -/

namespace Word

/-- Some bits of a word, moved to its low end. -/
def bits (w : Word) (start count : Nat) : Word :=
  (w >>> start) &&& BitVec.ofNat 32 (2 ^ count - 1)

theorem bits_eq (w : Word) (start : Nat) {count : Nat} (hcount : count ≤ 32) :
    w.bits start count = (w.extractLsb' start count).setWidth 32 := by
  have hmask : 2 ^ count - 1 < 2 ^ 32 := by
    have hle : 2 ^ count ≤ 2 ^ 32 := Nat.pow_le_pow_right (by decide) hcount
    omega
  apply BitVec.eq_of_toNat_eq
  rw [bits, BitVec.toNat_and, BitVec.toNat_ushiftRight, BitVec.toNat_ofNat,
    Nat.mod_eq_of_lt hmask, Nat.and_two_pow_sub_one_eq_mod, BitVec.toNat_setWidth,
    BitVec.extractLsb'_toNat]
  have hlt : w.toNat >>> start % 2 ^ count < 2 ^ count :=
    Nat.mod_lt _ (Nat.two_pow_pos count)
  exact (Nat.mod_eq_of_lt (by omega)).symm

/-- The five bits of a register number. -/
def registerAt (w : Word) (start : Nat) : Byte := (w.bits start 5).setWidth 8

theorem registerAt_eq (w : Word) (start : Nat) :
    w.registerAt start = (w.extractLsb' start 5).setWidth 8 := by
  rw [registerAt, bits_eq w start (by decide), BitVec.setWidth_setWidth_of_le _ (by decide)]

/-! The parts of an immediate come together in place. -/

theorem setWidth_immS (w : Word) :
    w.immS.setWidth 32 = w.bits 25 7 <<< 5 ||| w.bits 7 5 := by
  rw [bits_eq w 25 (by decide), bits_eq w 7 (by decide)]
  apply BitVec.eq_of_getLsbD_eq
  intro i hi
  simp only [immS, BitVec.getLsbD_setWidth, BitVec.getLsbD_append, BitVec.getLsbD_or,
    BitVec.getLsbD_shiftLeft, BitVec.getLsbD_extractLsb']
  grind

theorem setWidth_immB (w : Word) :
    w.immB.setWidth 32 =
      w.bits 31 1 <<< 12 ||| w.bits 7 1 <<< 11 ||| w.bits 25 6 <<< 5 ||| w.bits 8 4 <<< 1 := by
  rw [bits_eq w 31 (by decide), bits_eq w 7 (by decide), bits_eq w 25 (by decide),
    bits_eq w 8 (by decide)]
  apply BitVec.eq_of_getLsbD_eq
  intro i hi
  simp only [immB, BitVec.getLsbD_setWidth, BitVec.getLsbD_append, BitVec.getLsbD_or,
    BitVec.getLsbD_shiftLeft, BitVec.getLsbD_extractLsb', BitVec.getLsbD_zero]
  grind

theorem setWidth_immJ (w : Word) :
    w.immJ.setWidth 32 =
      w.bits 31 1 <<< 20 ||| w.bits 12 8 <<< 12 ||| w.bits 20 1 <<< 11 |||
        w.bits 21 10 <<< 1 := by
  rw [bits_eq w 31 (by decide), bits_eq w 12 (by decide), bits_eq w 20 (by decide),
    bits_eq w 21 (by decide)]
  apply BitVec.eq_of_getLsbD_eq
  intro i hi
  simp only [immJ, BitVec.getLsbD_setWidth, BitVec.getLsbD_append, BitVec.getLsbD_or,
    BitVec.getLsbD_shiftLeft, BitVec.getLsbD_extractLsb', BitVec.getLsbD_zero]
  grind

theorem immU_eq_and (w : Word) : w.immU = w &&& 0xFFFFF000 := by
  have hmask : (0xFFFFF000 : Word) = BitVec.allOnes 20 ++ 0#12 := by decide
  rw [hmask]
  apply BitVec.eq_of_getLsbD_eq
  intro i hi
  simp only [immU, BitVec.getLsbD_and, BitVec.getLsbD_append, BitVec.getLsbD_extractLsb',
    BitVec.getLsbD_zero, BitVec.getLsbD_allOnes]
  grind

end Word

/-! ## Operands without promises -/

/-- Operands as the shifts and masks leave them. -/
inductive RawOperands where
  | none
  | r (rs1 rs2 rd : Byte)
  | i (rs1 rd : Byte) (imm : Word)
  | s (rs1 rs2 : Byte) (imm : Word)
  | b (rs1 rs2 : Byte) (imm : Word)
  | u (rd : Byte) (imm : Word)
  | j (rd : Byte) (imm : Word)
  deriving DecidableEq, Repr

namespace RawOperands

/-- The operands that a word has for an instruction of a given format. -/
def ofWord (m : Mnemonic) (w : Word) : Format → RawOperands
  | .exact => none
  | .r => r (w.registerAt 15) (w.registerAt 20) (w.registerAt 7)
  | .i =>
    let imm := w.bits 20 12
    i (w.registerAt 15) (w.registerAt 7) (if m.isImmediateShift then imm &&& 0x1F else imm)
  | .s => s (w.registerAt 15) (w.registerAt 20) (w.bits 25 7 <<< 5 ||| w.bits 7 5)
  | .b =>
    b (w.registerAt 15) (w.registerAt 20)
      (w.bits 31 1 <<< 12 ||| w.bits 7 1 <<< 11 ||| w.bits 25 6 <<< 5 ||| w.bits 8 4 <<< 1)
  | .u => u (w.registerAt 7) (w &&& 0xFFFFF000)
  | .j =>
    j (w.registerAt 7)
      (w.bits 31 1 <<< 20 ||| w.bits 12 8 <<< 12 ||| w.bits 20 1 <<< 11 ||| w.bits 21 10 <<< 1)

/-- The format of operands. -/
def format : RawOperands → Format
  | none => .exact
  | r _ _ _ => .r
  | i _ _ _ => .i
  | s _ _ _ => .s
  | b _ _ _ => .b
  | u _ _ => .u
  | j _ _ => .j

/-- The register numbers among operands. -/
def registers : RawOperands → List Byte
  | none => []
  | r rs1 rs2 rd => [rs1, rs2, rd]
  | i rs1 rd _ => [rs1, rd]
  | s rs1 rs2 _ => [rs1, rs2]
  | b rs1 rs2 _ => [rs1, rs2]
  | u rd _ => [rd]
  | j rd _ => [rd]

/-- The immediate fits the field that it comes from: 12, 13 or 21 bits, or the upper 20, or
    the five bits of a shift amount. -/
def ImmediateFits (m : Mnemonic) : RawOperands → Prop
  | i _ _ imm => imm.toNat < if m.isImmediateShift = true then 2 ^ 5 else 2 ^ 12
  | s _ _ imm => imm.toNat < 2 ^ 12
  | b _ _ imm => imm.toNat < 2 ^ 13
  | u _ imm => imm.setWidth 12 = 0
  | j _ imm => imm.toNat < 2 ^ 21
  | _ => True

end RawOperands

namespace Operands

/-- Operands without the promises of their types. -/
def raw : Operands → RawOperands
  | none => .none
  | r rs1 rs2 rd => .r (rs1.setWidth 8) (rs2.setWidth 8) (rd.setWidth 8)
  | i rs1 rd imm => .i (rs1.setWidth 8) (rd.setWidth 8) (imm.setWidth 32)
  | s rs1 rs2 imm => .s (rs1.setWidth 8) (rs2.setWidth 8) (imm.setWidth 32)
  | b rs1 rs2 imm => .b (rs1.setWidth 8) (rs2.setWidth 8) (imm.setWidth 32)
  | u rd imm => .u (rd.setWidth 8) imm
  | j rd imm => .j (rd.setWidth 8) (imm.setWidth 32)

/-- Shifts and masks give the fields of a word. -/
theorem raw_ofWord (m : Mnemonic) (w : Word) (f : Format) :
    (ofWord m w f).raw = RawOperands.ofWord m w f := by
  cases f with
  | exact => rfl
  | i =>
    have himm : w.immI.setWidth 32 = w.bits 20 12 := (w.bits_eq 20 (by decide)).symm
    have hamount : (w.immI &&& 0x1F).setWidth 32 = w.bits 20 12 &&& 0x1F := by
      rw [BitVec.setWidth_and, himm]
      rfl
    simp only [ofWord, raw, RawOperands.ofWord, Word.registerAt_eq, Word.rs1, Word.rd]
    split
    · rw [hamount]
    · rw [himm]
  | _ =>
    simp only [ofWord, raw, RawOperands.ofWord, Word.registerAt_eq, Word.rs1, Word.rs2, Word.rd,
      Word.setWidth_immS, Word.setWidth_immB, Word.setWidth_immJ, Word.immU_eq_and]

theorem format_raw_ofWord (m : Mnemonic) (w : Word) (f : Format) :
    (ofWord m w f).raw.format = f := by
  cases f <;> rfl

/-- The register numbers are numbers of registers. -/
theorem registers_raw (ops : Operands) : ∀ id ∈ ops.raw.registers, id.toNat < 32 := by
  have hreg (r : Reg) : (r.setWidth 8).toNat < 32 := by
    rw [BitVec.toNat_setWidth_of_le (by decide)]
    exact r.isLt
  cases ops <;> simp only [raw, RawOperands.registers, List.forall_mem_cons, hreg, true_and] <;>
    exact List.forall_mem_nil _

/-- The immediates of a word fit their fields. -/
theorem immediateFits_raw_ofWord (m : Mnemonic) (w : Word) (f : Format) :
    (ofWord m w f).raw.ImmediateFits m := by
  have hfield {n : Nat} (x : BitVec n) (hn : n ≤ 32) : (x.setWidth 32).toNat < 2 ^ n := by
    rw [BitVec.toNat_setWidth_of_le hn]
    exact x.isLt
  cases f with
  | i =>
    show (BitVec.setWidth 32 (if m.isImmediateShift then _ else _)).toNat < ite _ _ _
    by_cases hm : m.isImmediateShift = true
    · have hamount := inRange_ofWord m w .i hm
      rw [if_pos hm] at hamount ⊢
      rw [if_pos hm, BitVec.toNat_setWidth_of_le (by decide)]
      exact hamount
    · rw [if_neg hm, if_neg hm]
      exact hfield w.immI (by decide)
  | s => exact hfield w.immS (by decide)
  | b => exact hfield w.immB (by decide)
  | u =>
    have hlow : 2 ^ 12 ∣ w.immU.toNat := inRange_ofWord m w .u
    show w.immU.setWidth 12 = 0
    apply BitVec.eq_of_toNat_eq
    rw [BitVec.toNat_setWidth, Nat.mod_eq_zero_of_dvd hlow]
    rfl
  | j => exact hfield w.immJ (by decide)
  | _ => trivial

end Operands

/-! ## Decoding -/

namespace Decoder

/-- The instruction that a word encodes, its class looked up in the table of classes. -/
def checkedDecode (d : Decoder) (w : Word) :
    Except Fault (Option (Mnemonic × RawOperands)) := do
  match ← Fault.entry d.classes (w &&& 0x7F).toNat with
  | [] => return none
  | rows =>
    match rows.find? (·.accepts w) with
    | some row => return some (row.mnemonic, .ofWord row.mnemonic w row.format)
    | none => return some (.reserved, .none)

theorem checkedDecode_eq (d : Decoder) (w : Word) :
    d.checkedDecode w =
      .ok ((d.decode w).map fun decoded => (decoded.mnemonic, decoded.operands.raw)) := by
  have hopcode : (w &&& 0x7F).toNat = w.opcode.toNat := by
    rw [BitVec.toNat_and, Word.toNat_opcode]
    exact Nat.and_two_pow_sub_one_eq_mod _ 7
  have hclass : Fault.entry d.classes (w &&& 0x7F).toNat = .ok (d.classOf w.opcode) := by
    rw [hopcode]
    exact Fault.entry_eq d.classes w.opcode.isLt
  rw [checkedDecode, hclass, Fault.ok_bind, decode]
  cases d.classOf w.opcode with
  | nil => rfl
  | cons first rest =>
    dsimp only
    cases (first :: rest).find? (·.accepts w) with
    | none => rfl
    | some row =>
      have hraw := Operands.raw_ofWord row.mnemonic w row.format
      exact congrArg (fun ops => Except.ok (some (row.mnemonic, ops))) hraw.symm

/-- What a word decodes to has operands of a format that its instruction can use, with
    numbers of registers and with immediates that fit their fields. -/
theorem fits_of_checkedDecode {w : Word} {m : Mnemonic} {ops : RawOperands}
    (hd : standard.checkedDecode w = .ok (some (m, ops))) :
    m.action.fits ops.format = true ∧ (∀ id ∈ ops.registers, id.toNat < 32) ∧
      ops.ImmediateFits m := by
  rw [checkedDecode_eq, Except.ok.injEq, Option.map_eq_some_iff] at hd
  obtain ⟨decoded, hdecoded, hraw⟩ := hd
  obtain ⟨rfl, rfl⟩ := Prod.mk.inj hraw
  refine ⟨?_, Operands.registers_raw _, ?_⟩
  · obtain ⟨row, hrow, -, -, rfl⟩ | ⟨-, rfl⟩ := decode_build_cases hdecoded
    · rw [Operands.format_raw_ofWord]
      exact isaTable_fits row hrow
    · rfl
  · obtain ⟨row, -, -, -, rfl⟩ | ⟨-, rfl⟩ := decode_build_cases hdecoded
    · exact Operands.immediateFits_raw_ofWord row.mnemonic w row.format
    · trivial

end Decoder

end Rv32Sim
