/-
  Rv32Sim.Isa.Table

  The instruction tables. ADD, SUB and the right shifts look at one bit of
  funct7 only, so the multiplication table, which lists funct7 in full, comes
  before the base table. Read the other way a row gives the words of its instruction:
  its key with the operand fields at their places, and zeros where the key leaves bits
  open and no operand fills them.
-/
import Rv32Sim.Isa.Decoder

namespace Rv32Sim

/-! ## Rows -/

/-- The bit of funct7 that tells ADD from SUB and SRL from SRA. -/
def alternateBit : Word := 0b0100000

/-- The base integer instructions. -/
def baseTable : List Row :=
  [ .ofFields .lui .u 0b0110111 [],
    .ofFields .auipc .u 0b0010111 [],
    .ofFields .jal .j 0b1101111 [],
    .ofFields .jalr .i 0b1100111 [0b000],
    .ofFields .beq .b 0b1100011 [0b000],
    .ofFields .bne .b 0b1100011 [0b001],
    .ofFields .blt .b 0b1100011 [0b100],
    .ofFields .bge .b 0b1100011 [0b101],
    .ofFields .bltu .b 0b1100011 [0b110],
    .ofFields .bgeu .b 0b1100011 [0b111],
    .ofFields .lb .i 0b0000011 [0b000],
    .ofFields .lh .i 0b0000011 [0b001],
    .ofFields .lw .i 0b0000011 [0b010],
    .ofFields .lbu .i 0b0000011 [0b100],
    .ofFields .lhu .i 0b0000011 [0b101],
    .ofFields .sb .s 0b0100011 [0b000],
    .ofFields .sh .s 0b0100011 [0b001],
    .ofFields .sw .s 0b0100011 [0b010],
    .ofFields .addi .i 0b0010011 [0b000],
    .ofFields .slti .i 0b0010011 [0b010],
    .ofFields .sltiu .i 0b0010011 [0b011],
    .ofFields .xori .i 0b0010011 [0b100],
    .ofFields .ori .i 0b0010011 [0b110],
    .ofFields .andi .i 0b0010011 [0b111],
    .ofFields .slli .i 0b0010011 [0b001, 0b0000000],
    (Row.ofFields .srli .i 0b0010011 [0b101, 0b0000000]).withFunct7Mask alternateBit,
    (Row.ofFields .srai .i 0b0010011 [0b101, 0b0100000]).withFunct7Mask alternateBit,
    (Row.ofFields .add .r 0b0110011 [0b000, 0b0000000]).withFunct7Mask alternateBit,
    (Row.ofFields .sub .r 0b0110011 [0b000, 0b0100000]).withFunct7Mask alternateBit,
    .ofFields .sll .r 0b0110011 [0b001, 0b0000000],
    .ofFields .slt .r 0b0110011 [0b010, 0b0000000],
    .ofFields .sltu .r 0b0110011 [0b011, 0b0000000],
    .ofFields .xor .r 0b0110011 [0b100, 0b0000000],
    (Row.ofFields .srl .r 0b0110011 [0b101, 0b0000000]).withFunct7Mask alternateBit,
    (Row.ofFields .sra .r 0b0110011 [0b101, 0b0100000]).withFunct7Mask alternateBit,
    .ofFields .or .r 0b0110011 [0b110, 0b0000000],
    .ofFields .and .r 0b0110011 [0b111, 0b0000000],
    .ofFields .fence .i 0b0001111 [] ]

/-- Multiplication and division. -/
def multiplyTable : List Row :=
  [ .ofFields .mul .r 0b0110011 [0b000, 0b0000001],
    .ofFields .mulh .r 0b0110011 [0b001, 0b0000001],
    .ofFields .mulhsu .r 0b0110011 [0b010, 0b0000001],
    .ofFields .mulhu .r 0b0110011 [0b011, 0b0000001],
    .ofFields .div .r 0b0110011 [0b100, 0b0000001],
    .ofFields .divu .r 0b0110011 [0b101, 0b0000001],
    .ofFields .rem .r 0b0110011 [0b110, 0b0000001],
    .ofFields .remu .r 0b0110011 [0b111, 0b0000001] ]

/-- The word of ECALL. -/
def ecallWord : Word := 0x00000073

/-- The word of EBREAK. -/
def ebreakWord : Word := 0x00100073

/-- The word of MRET. -/
def mretWord : Word := 0x30200073

/-- The word that stands for memory without content: ADDI x0, x0, 0. -/
def nopWord : Word := 0x00000013

/-- The system instructions, each given by its whole word. -/
def systemTable : List Row :=
  [ .ofFields .ecall .exact ecallWord [],
    .ofFields .ebreak .exact ebreakWord [],
    .ofFields .mret .exact mretWord [] ]

/-- The CSR instructions. -/
def csrTable : List Row :=
  [ .ofFields .csrrw .i 0b1110011 [0b001],
    .ofFields .csrrs .i 0b1110011 [0b010],
    .ofFields .csrrc .i 0b1110011 [0b011],
    .ofFields .csrrwi .i 0b1110011 [0b101],
    .ofFields .csrrsi .i 0b1110011 [0b110],
    .ofFields .csrrci .i 0b1110011 [0b111] ]

/-- The rows of one instruction set. -/
def Extension.table : Extension → List Row
  | .base => baseTable
  | .multiply => multiplyTable
  | .system => systemTable
  | .csr => csrTable

/-- All rows, in the order in which the decoder tries them. -/
def isaTable : List Row :=
  multiplyTable ++ baseTable ++ systemTable ++ csrTable

/-- The decoder of the simulated machine. -/
def Decoder.standard : Decoder := .build isaTable

/-! ## Words from instructions -/

/-- The operands at their places in an instruction word. Immediates of formats S, B
    and J are cut into fields of their own, and bit 0 of an offset is dropped. -/
def Operands.fields : Operands → Word
  | none => 0
  | r rs1 rs2 rd => 0#7 ++ rs2 ++ rs1 ++ 0#3 ++ rd ++ 0#7
  | i rs1 rd imm => imm ++ rs1 ++ 0#3 ++ rd ++ 0#7
  | s rs1 rs2 imm =>
    imm.extractLsb' 5 7 ++ rs2 ++ rs1 ++ 0#3 ++ imm.extractLsb' 0 5 ++ 0#7
  | b rs1 rs2 imm =>
    imm.extractLsb' 12 1 ++ imm.extractLsb' 5 6 ++ rs2 ++ rs1 ++ 0#3 ++
      imm.extractLsb' 1 4 ++ imm.extractLsb' 11 1 ++ 0#7
  | u rd imm => imm.extractLsb' 12 20 ++ rd ++ 0#7
  | j rd imm =>
    imm.extractLsb' 20 1 ++ imm.extractLsb' 1 10 ++ imm.extractLsb' 11 1 ++
      imm.extractLsb' 12 8 ++ rd ++ 0#7

/-- The word of a row's instruction with the given operands. -/
def Row.assemble (row : Row) (operands : Operands) : Word :=
  row.key ||| operands.fields

/-- The word of an instruction of the tables; `reserved` has none. -/
def Decoded.assemble? (d : Decoded) : Option Word :=
  (isaTable.find? (·.mnemonic == d.mnemonic)).map fun row => row.assemble d.operands

end Rv32Sim
