/-
  Rv32Sim.Isa.Operands

  The operands of an instruction word, by format. Immediates are kept as they
  stand in the word, with the width of their field and without sign extension;
  only the upper immediate is already in place.
-/
import Rv32Sim.Word
import Rv32Sim.Isa.Mnemonic

namespace Rv32Sim

/-- The number of a general register. -/
abbrev Reg := BitVec 5

/-- The register with a number, if there is one. -/
def Reg.ofNat (n : Nat) : Except OutOfBounds Reg :=
  if n < 32 then .ok (BitVec.ofNat 5 n) else .error ⟨32, n⟩

/-- The layouts of an instruction word. `exact` has no operands. -/
inductive Format where
  | exact
  | r
  | i
  | s
  | b
  | u
  | j
  deriving DecidableEq, Repr

namespace Format

/-- The written name of a format. -/
def name : Format → String
  | exact => "None"
  | r => "R"
  | i => "I"
  | s => "S"
  | b => "B"
  | u => "U"
  | j => "J"

/-- The format with a written name; any other text names `exact`. -/
def ofName (text : String) : Format :=
  ([r, i, s, b, u, j].find? (·.name == text)).getD exact

end Format

/-- The operands of a decoded instruction. -/
inductive Operands where
  | none
  | r (rs1 rs2 rd : Reg)
  | i (rs1 rd : Reg) (imm : BitVec 12)
  | s (rs1 rs2 : Reg) (imm : BitVec 12)
  | b (rs1 rs2 : Reg) (imm : BitVec 13)
  | u (rd : Reg) (imm : Word)
  | j (rd : Reg) (imm : BitVec 21)
  deriving DecidableEq, Repr

/-! ## Fields of an instruction word -/

namespace Word

/-- The opcode field. -/
def opcode (w : Word) : BitVec 7 := w.extractLsb' 0 7

/-- The destination register. -/
def rd (w : Word) : Reg := w.extractLsb' 7 5

/-- The first source register. -/
def rs1 (w : Word) : Reg := w.extractLsb' 15 5

/-- The second source register. -/
def rs2 (w : Word) : Reg := w.extractLsb' 20 5

/-- The immediate of format I. -/
def immI (w : Word) : BitVec 12 := w.extractLsb' 20 12

/-- The immediate of format S, whose low part sits where others have the destination. -/
def immS (w : Word) : BitVec 12 := w.extractLsb' 25 7 ++ w.extractLsb' 7 5

/-- The immediate of format B, an even offset. -/
def immB (w : Word) : BitVec 13 :=
  w.extractLsb' 31 1 ++ w.extractLsb' 7 1 ++ w.extractLsb' 25 6 ++ w.extractLsb' 8 4 ++ 0#1

/-- The immediate of format U, in place. -/
def immU (w : Word) : Word := w.extractLsb' 12 20 ++ 0#12

/-- The immediate of format J, an even offset. -/
def immJ (w : Word) : BitVec 21 :=
  w.extractLsb' 31 1 ++ w.extractLsb' 12 8 ++ w.extractLsb' 20 1 ++ w.extractLsb' 21 10 ++ 0#1

end Word

/-- The operands that a word has for an instruction of a given format. A shift
    amount takes the low five bits of its immediate field. -/
def Operands.ofWord (m : Mnemonic) (w : Word) : Format → Operands
  | .exact => .none
  | .r => .r w.rs1 w.rs2 w.rd
  | .i => .i w.rs1 w.rd (if m.isImmediateShift then w.immI &&& 0x1F else w.immI)
  | .s => .s w.rs1 w.rs2 w.immS
  | .b => .b w.rs1 w.rs2 w.immB
  | .u => .u w.rd w.immU
  | .j => .j w.rd w.immJ

/-- The written form of operands, fields in the order of their format. -/
def Operands.text : Operands → String
  | none => "None"
  | r rs1 rs2 rd => s!"R \x7b rs1: {rs1.toNat}, rs2: {rs2.toNat}, rd: {rd.toNat} \x7d"
  | i rs1 rd imm => s!"I \x7b rs1: {rs1.toNat}, rd: {rd.toNat}, imm: {imm.toNat} \x7d"
  | s rs1 rs2 imm => s!"S \x7b rs1: {rs1.toNat}, rs2: {rs2.toNat}, imm: {imm.toNat} \x7d"
  | b rs1 rs2 imm => s!"B \x7b rs1: {rs1.toNat}, rs2: {rs2.toNat}, imm: {imm.toNat} \x7d"
  | u rd imm => s!"U \x7b rd: {rd.toNat}, imm: {imm.toNat} \x7d"
  | j rd imm => s!"J \x7b rd: {rd.toNat}, imm: {imm.toNat} \x7d"

end Rv32Sim
