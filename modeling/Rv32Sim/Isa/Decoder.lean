/-
  Rv32Sim.Isa.Decoder

  A decoder sorts the rows of a table by opcode and answers with the first row
  of the word's opcode class that accepts the word. A word whose class is empty
  is no instruction; one that no row of its class accepts is a reserved encoding.
-/
import Rv32Sim.Isa.Row

namespace Rv32Sim

/-- An instruction with its operands. -/
structure Decoded where
  mnemonic : Mnemonic
  operands : Operands
  deriving DecidableEq, Repr

/-- The written form: name, instruction set and operands. -/
def Decoded.text (d : Decoded) : String :=
  s!"{d.mnemonic.name} ({d.mnemonic.extensionName}), {d.operands.text}"

/-- The rows of each of the 128 opcodes, each class in table order. -/
structure Decoder where
  classes : Vector (List Row) 128

namespace Decoder

/-- The decoder for a table whose opcodes fit their field. -/
def build (rows : List Row) : Decoder :=
  ⟨Vector.ofFn fun i : Fin 128 => rows.filter fun row => row.opcode.toNat == i.val⟩

/-- The decoder for a table, or the first opcode in it that has no class. -/
def ofRows (rows : List Row) : Except OutOfBounds Decoder :=
  match rows.find? fun row => 128 ≤ row.opcode.toNat with
  | some row => .error ⟨128, row.opcode.toNat⟩
  | none => .ok (build rows)

/-- The rows of an opcode. -/
def classOf (d : Decoder) (opcode : BitVec 7) : List Row :=
  have h : opcode.toNat < 128 := opcode.isLt
  d.classes[opcode.toNat]

theorem classOf_build (rows : List Row) (opcode : BitVec 7) :
    (build rows).classOf opcode = rows.filter fun row => row.opcode.toNat == opcode.toNat := by
  simp only [build, classOf, Vector.getElem_ofFn]

/-- The instruction that a word encodes. -/
def decode (d : Decoder) (w : Word) : Option Decoded :=
  match d.classOf w.opcode with
  | [] => none
  | rows =>
    match rows.find? (·.accepts w) with
    | some row => some ⟨row.mnemonic, .ofWord row.mnemonic w row.format⟩
    | none => some ⟨.reserved, .none⟩

/-- The number of opcodes that have rows. -/
def classCount (d : Decoder) : Nat :=
  d.classes.countP fun rows => !rows.isEmpty

end Decoder

end Rv32Sim
