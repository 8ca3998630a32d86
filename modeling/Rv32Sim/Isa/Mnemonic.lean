/-
  Rv32Sim.Isa.Mnemonic

  The instructions by name: the base integer set, multiplication and division,
  the machine-mode system instructions and the CSR instructions. `reserved`
  stands for the unassigned encodings of a known opcode.
-/

namespace Rv32Sim

/-- The instruction sets that the simulator knows. -/
inductive Extension where
  | base
  | multiply
  | system
  | csr
  deriving DecidableEq, Repr

/-- The written name of an instruction set. -/
def Extension.name : Extension → String
  | .base => "RV32I"
  | .multiply => "RV32M"
  | .system => "RVSYSTEM"
  | .csr => "RVZICSR"

/-- The name of an instruction. -/
inductive Mnemonic where
  | lui | auipc | jal | jalr
  | beq | bne | blt | bge | bltu | bgeu
  | lb | lh | lw | lbu | lhu
  | sb | sh | sw
  | addi | slti | sltiu | xori | ori | andi | slli | srli | srai
  | add | sub | sll | slt | sltu | xor | srl | sra | or | and
  | fence
  | mul | mulh | mulhsu | mulhu | div | divu | rem | remu
  | ecall | ebreak | mret
  | csrrw | csrrs | csrrc | csrrwi | csrrsi | csrrci
  | reserved
  deriving DecidableEq, Repr

namespace Mnemonic

/-- The written name of an instruction. -/
def name : Mnemonic → String
  | lui => "LUI" | auipc => "AUIPC" | jal => "JAL" | jalr => "JALR"
  | beq => "BEQ" | bne => "BNE" | blt => "BLT"
  | bge => "BGE" | bltu => "BLTU" | bgeu => "BGEU"
  | lb => "LB" | lh => "LH" | lw => "LW" | lbu => "LBU" | lhu => "LHU"
  | sb => "SB" | sh => "SH" | sw => "SW"
  | addi => "ADDI" | slti => "SLTI" | sltiu => "SLTIU"
  | xori => "XORI" | ori => "ORI" | andi => "ANDI"
  | slli => "SLLI" | srli => "SRLI" | srai => "SRAI"
  | add => "ADD" | sub => "SUB" | sll => "SLL" | slt => "SLT" | sltu => "SLTU"
  | xor => "XOR" | srl => "SRL" | sra => "SRA" | or => "OR" | and => "AND"
  | fence => "FENCE"
  | mul => "MUL" | mulh => "MULH" | mulhsu => "MULHSU" | mulhu => "MULHU"
  | div => "DIV" | divu => "DIVU" | rem => "REM" | remu => "REMU"
  | ecall => "ECALL" | ebreak => "EBREAK" | mret => "MRET"
  | csrrw => "CSRRW" | csrrs => "CSRRS" | csrrc => "CSRRC"
  | csrrwi => "CSRRWI" | csrrsi => "CSRRSI" | csrrci => "CSRRCI"
  | reserved => "RESERVED"

/-- The instructions that have an encoding of their own. -/
def assigned : List Mnemonic :=
  [lui, auipc, jal, jalr, beq, bne, blt, bge, bltu, bgeu, lb, lh, lw, lbu, lhu, sb, sh, sw,
   addi, slti, sltiu, xori, ori, andi, slli, srli, srai,
   add, sub, sll, slt, sltu, xor, srl, sra, or, and, fence,
   mul, mulh, mulhsu, mulhu, div, divu, rem, remu, ecall, ebreak, mret,
   csrrw, csrrs, csrrc, csrrwi, csrrsi, csrrci]

/-- The instruction with a written name; any other text names `reserved`. -/
def ofName (text : String) : Mnemonic :=
  (assigned.find? (·.name == text)).getD reserved

/-- The instruction set that an instruction belongs to. -/
def extension? : Mnemonic → Option Extension
  | reserved => none
  | mul | mulh | mulhsu | mulhu | div | divu | rem | remu => some .multiply
  | ecall | ebreak | mret => some .system
  | csrrw | csrrs | csrrc | csrrwi | csrrsi | csrrci => some .csr
  | _ => some .base

/-- The written name of the instruction set; `reserved` stands for itself. -/
def extensionName (m : Mnemonic) : String :=
  match m.extension? with
  | some x => x.name
  | none => m.name

/-- Whether the instruction shifts by an amount given in its immediate field. -/
def isImmediateShift : Mnemonic → Bool
  | slli | srli | srai => true
  | _ => false

end Mnemonic

end Rv32Sim
