/-
  Rv32Sim.Isa.Row

  One row of an instruction table. A word matches a row when the bits that the
  mask selects are those of the key; the mask covers the opcode, then funct3,
  then funct7, as far as the row lists them.
-/
import Rv32Sim.Isa.Operands

namespace Rv32Sim

/-- One row of an instruction table. -/
structure Row where
  mnemonic : Mnemonic
  format : Format
  opcode : BitVec 8
  mask : Word
  key : Word
  deriving DecidableEq, Repr

namespace Row

/-- The bits of an instruction word that hold its opcode. -/
def opcodeMask : Word := 0x0000007F

/-- The bits of an instruction word that hold funct3. -/
def funct3Mask : Word := 0x00007000

/-- The bits of an instruction word that hold funct7. -/
def funct7Mask : Word := 0xFE000000

/-- The bits that a row compares if it lists the given funct fields. -/
def fieldMask : List Word → Word
  | [] => opcodeMask
  | [_] => opcodeMask ||| funct3Mask
  | _ :: _ :: _ => opcodeMask ||| funct3Mask ||| funct7Mask

/-- The listed fields at their places in an instruction word. -/
def fieldKey (opcode : Word) : List Word → Word
  | [] => opcode
  | [funct3] => opcode ||| funct3 <<< 12
  | funct3 :: funct7 :: _ => opcode ||| funct3 <<< 12 ||| funct7 <<< 25

/-- The row for an opcode and the funct fields that follow it, funct3 first. A row
    without operands is given by its whole word instead. -/
def ofFields (m : Mnemonic) (format : Format) (opcode : Word) (functs : List Word) : Row :=
  if format = .exact then
    ⟨m, format, (opcode &&& opcodeMask).setWidth 8, BitVec.allOnes 32, opcode⟩
  else
    ⟨m, format, opcode.setWidth 8, fieldMask functs, fieldKey opcode functs⟩

/-- Compare only those bits of funct7 that are set in `m`. -/
def withFunct7Mask (row : Row) (m : Word) : Row :=
  let mask := (row.mask &&& ~~~funct7Mask) ||| ((m <<< 25) &&& funct7Mask)
  { row with mask := mask, key := row.key &&& mask }

/-- Whether a word is an encoding of the row's instruction. -/
def accepts (row : Row) (w : Word) : Bool :=
  w &&& row.mask == row.key

end Row

end Rv32Sim
