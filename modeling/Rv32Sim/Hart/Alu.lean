/-
  Rv32Sim.Hart.Alu

  The functions that instructions compute. Arithmetic is modulo `2 ^ 32`, and
  shifts take their amount modulo 32. Division and remainder are unsigned; by
  zero they give all ones and the dividend.
-/
import Rv32Sim.Word

namespace Rv32Sim

/-- The binary operations of the arithmetic instructions. -/
inductive AluOp where
  | add | sub
  | sll | srl | sra
  | slt | sltu
  | and | or | xor
  | mul | mulh | mulhu | mulhsu
  | divu | remu
  deriving DecidableEq, Repr

/-- The high word of a 64-bit product. -/
def highWord (p : BitVec 64) : Word := p.extractLsb' 32 32

/-- The result of an operation on the values of its two operands. -/
def AluOp.eval (op : AluOp) (a b : Word) : Word :=
  match op with
  | add => a + b
  | sub => a - b
  | sll => a <<< (b.toNat % 32)
  | srl => a >>> (b.toNat % 32)
  | sra => a.sshiftRight (b.toNat % 32)
  | slt => if a.slt b then 1 else 0
  | sltu => if a.ult b then 1 else 0
  | and => a &&& b
  | or => a ||| b
  | xor => a ^^^ b
  | mul => a * b
  | mulh => highWord (a.signExtend 64 * b.signExtend 64)
  | mulhu => highWord (a.setWidth 64 * b.setWidth 64)
  | mulhsu => highWord (a.signExtend 64 * b.setWidth 64)
  | divu => if b = 0 then BitVec.allOnes 32 else a / b
  | remu => if b = 0 then a else a % b

/-- The conditions of the branch instructions. -/
inductive Comparison where
  | eq | ne
  | lt | ge
  | ltu | geu
  deriving DecidableEq, Repr

/-- Whether a condition holds of two values. -/
def Comparison.holds (c : Comparison) (a b : Word) : Bool :=
  match c with
  | eq => a == b
  | ne => a != b
  | lt => a.slt b
  | ge => b.sle a
  | ltu => a.ult b
  | geu => b.ule a

/-- How a CSR instruction combines the old value with its operand. -/
inductive CsrOp where
  | write
  | set
  | clear
  deriving DecidableEq, Repr

/-- The value that a CSR instruction writes. -/
def CsrOp.eval (op : CsrOp) (old operand : Word) : Word :=
  match op with
  | write => operand
  | set => old ||| operand
  | clear => old &&& ~~~operand

end Rv32Sim
