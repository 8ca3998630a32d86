/-
  Rv32Sim.Hart.Effect

  What an instruction does, computed from the state before it and not yet
  carried out. An instruction retires, with a next address, at most one register
  result and at most one write besides; or it raises an exception; or it returns
  from a trap. Loads only look at the address space, so they need no write. However
  an instruction ends, x0 reads as zero behind it.
-/
import Rv32Sim.Isa.Decoder
import Rv32Sim.Hart.Alu
import Rv32Sim.Hart.Basic

namespace Rv32Sim

/-- A write besides the register result. -/
inductive SideEffect where
  | none
  | store (a data : Word) (size : AccessSize)
  | csrWrite (a : CsrAddress) (value : Word)
  deriving DecidableEq, Repr

/-- What an instruction does. -/
inductive Effect where
  | retire (next : Word) (result : Option (Reg × Word)) (side : SideEffect)
  | raise (e : Exception)
  | leaveTrap
  /-- The word is no instruction, and there is nothing to execute. -/
  | illegal
  deriving DecidableEq, Repr

/-- The exception that an effect raises. -/
def Effect.exception? : Effect → Option Exception
  | raise e => some e
  | retire _ _ _ => none
  | leaveTrap => none
  | illegal => some .illegalInstruction

/-! ## Kinds of instruction -/

/-- The ways in which instructions work. Those of one way differ in a parameter. -/
inductive Action where
  | arith (op : AluOp)
  | branch (c : Comparison)
  | load (size : AccessSize) (signed : Bool)
  | store (size : AccessSize)
  | loadUpper
  | addUpper
  | jump
  | jumpRegister
  | csr (op : CsrOp) (immediate : Bool)
  | raise (e : Exception)
  | leaveTrap
  | nop
  deriving DecidableEq, Repr

/-- The way in which an instruction works. DIV and REM work on the raw register
    values, as DIVU and REMU do; FENCE has nothing to order, and a reserved
    encoding does nothing. -/
def Mnemonic.action : Mnemonic → Action
  | add | addi => .arith .add
  | sub => .arith .sub
  | sll | slli => .arith .sll
  | srl | srli => .arith .srl
  | sra | srai => .arith .sra
  | slt | slti => .arith .slt
  | sltu | sltiu => .arith .sltu
  | and | andi => .arith .and
  | or | ori => .arith .or
  | xor | xori => .arith .xor
  | mul => .arith .mul
  | mulh => .arith .mulh
  | mulhu => .arith .mulhu
  | mulhsu => .arith .mulhsu
  | div | divu => .arith .divu
  | rem | remu => .arith .remu
  | beq => .branch .eq
  | bne => .branch .ne
  | blt => .branch .lt
  | bge => .branch .ge
  | bltu => .branch .ltu
  | bgeu => .branch .geu
  | lb => .load .byte true
  | lbu => .load .byte false
  | lh => .load .half true
  | lhu => .load .half false
  | lw => .load .word false
  | sb => .store .byte
  | sh => .store .half
  | sw => .store .word
  | lui => .loadUpper
  | auipc => .addUpper
  | jal => .jump
  | jalr => .jumpRegister
  | csrrw => .csr .write false
  | csrrs => .csr .set false
  | csrrc => .csr .clear false
  | csrrwi => .csr .write true
  | csrrsi => .csr .set true
  | csrrci => .csr .clear true
  | ecall => .raise .environmentCall
  | ebreak => .raise .breakpoint
  | mret => .leaveTrap
  | fence | reserved => .nop

/-! ## Effects on a hart -/

namespace Hart

/-- The effect of an instruction that only writes a register. -/
def writing (h : Hart) (rd : Reg) (w : Word) : Effect :=
  .retire (h.pc + 4) (some (rd, w)) .none

/-- The value that a load brings. -/
def loaded (h : Hart) (a : Word) (size : AccessSize) (signed : Bool) : Word :=
  let w := h.bus.read a size
  if signed then w.signExtendFrom size else w

/-- The effect of a CSR instruction: the old value goes to `rd`, and its
    combination with the operand to the register at the address. -/
def csrEffect (h : Hart) (op : CsrOp) (rd : Reg) (a : CsrAddress) (operand : Word) : Effect :=
  let old := (h.csrs.read? a).getD 0
  .retire (h.pc + 4) (some (rd, old)) (.csrWrite a (op.eval old operand))

/-- The effect of an instruction, if its operands are of a kind that it can use. -/
def effect? (h : Hart) (d : Decoded) : Option Effect :=
  match d.mnemonic.action, d.operands with
  | .arith op, .r rs1 rs2 rd =>
    some (h.writing rd (op.eval (h.regs.get rs1) (h.regs.get rs2)))
  | .arith op, .i rs1 rd imm =>
    some (h.writing rd (op.eval (h.regs.get rs1) (imm.signExtend 32)))
  | .branch c, .b rs1 rs2 imm =>
    let taken := c.holds (h.regs.get rs1) (h.regs.get rs2)
    some (.retire (if taken then h.pc + imm.signExtend 32 else h.pc + 4) none .none)
  | .load size signed, .i rs1 rd imm =>
    some (h.writing rd (h.loaded (h.regs.get rs1 + imm.signExtend 32) size signed))
  | .store size, .s rs1 rs2 imm =>
    let a := h.regs.get rs1 + imm.signExtend 32
    some (.retire (h.pc + 4) none (.store a (h.regs.get rs2) size))
  | .loadUpper, .u rd imm => some (h.writing rd imm)
  | .addUpper, .u rd imm => some (h.writing rd (h.pc + imm))
  | .jump, .j rd imm =>
    some (.retire (h.pc + imm.signExtend 32) (some (rd, h.pc + 4)) .none)
  | .jumpRegister, .i rs1 rd imm =>
    let target := (h.regs.get rs1 + imm.signExtend 32) &&& ~~~1#32
    some (.retire target (some (rd, h.pc + 4)) .none)
  | .csr op false, .i rs1 rd imm =>
    some (h.csrEffect op rd (imm.setWidth 16) (h.regs.get rs1))
  | .csr op true, .i rs1 rd imm =>
    some (h.csrEffect op rd (imm.setWidth 16) (rs1.setWidth 32))
  | .raise e, _ => some (.raise e)
  | .leaveTrap, _ => some .leaveTrap
  | .nop, _ => some (.retire (h.pc + 4) none .none)
  | _, _ => none

/-- The effect of a decoded word; a word without an effect is an illegal instruction. -/
def effect (h : Hart) (decoded : Option Decoded) : Effect :=
  (decoded.bind h.effect?).getD .illegal

/-- Carry out a write besides the register result. -/
def applySide (h : Hart) : SideEffect → Hart
  | .none => h
  | .store a data size => h.writeMem a data size
  | .csrWrite a value => h.writeCsr a value

/-- Write the register result; x0 takes it like any other register. -/
def writeBack (h : Hart) : Option (Reg × Word) → Hart
  | none => h
  | some (rd, w) => { h with regs := h.regs.set rd w }

/-- Make x0 read as zero. -/
def clearZero (h : Hart) : Hart := { h with regs := h.regs.clearZero }

/-- Carry out an effect up to the trap of an exception. -/
def perform (h : Hart) : Effect → Hart
  | .retire next result side => { (h.applySide side).writeBack result with pc := next }
  | .raise _ => h
  | .leaveTrap => h.leaveTrap
  | .illegal => h

/-- Execute an instruction, at the end of which x0 is cleared, also if it raises an
    exception. A word that is no instruction is not executed. -/
def execute (h : Hart) : Effect → Hart
  | .illegal => h
  | effect => (h.perform effect).clearZero

/-- Carry out the effect of the instruction word `raw` and enter the handler of the exception
    that it raises. -/
def apply (h : Hart) (raw : Word) (effect : Effect) : Hart :=
  match effect.exception? with
  | some e => (h.execute effect).enterTrap (.exception e) (e.trapValue raw)
  | none => h.execute effect

end Hart

end Rv32Sim
