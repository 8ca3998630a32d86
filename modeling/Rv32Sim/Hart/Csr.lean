/-
  Rv32Sim.Hart.Csr

  The machine-mode control and status registers. A write through an address
  keeps the bits that its register does not let software change; a write by the
  hart itself is not masked. The bank carries a copy of the global interrupt
  enable, which every write to mstatus brings up to date.
-/
import Rv32Sim.Word

namespace Rv32Sim

/-- The address of a control and status register, as the host gives it. -/
abbrev CsrAddress := BitVec 16

/-- The control and status registers that the hart has. -/
inductive Csr where
  | mstatus
  | misa
  | mie
  | mtvec
  | mscratch
  | mepc
  | mcause
  | mtval
  | mip
  deriving DecidableEq, Repr

namespace Csr

/-- All registers in address order. -/
def all : List Csr := [mstatus, misa, mie, mtvec, mscratch, mepc, mcause, mtval, mip]

/-- The written name of a register. -/
def name : Csr → String
  | mstatus => "mstatus"
  | misa => "misa"
  | mie => "mie"
  | mtvec => "mtvec"
  | mscratch => "mscratch"
  | mepc => "mepc"
  | mcause => "mcause"
  | mtval => "mtval"
  | mip => "mip"

/-- The address of a register. -/
def address : Csr → CsrAddress
  | mstatus => 0x300
  | misa => 0x301
  | mie => 0x304
  | mtvec => 0x305
  | mscratch => 0x340
  | mepc => 0x341
  | mcause => 0x342
  | mtval => 0x343
  | mip => 0x344

/-- The register at an address. -/
def ofAddress? (a : CsrAddress) : Option Csr := all.find? (·.address == a)

theorem ofAddress?_address (c : Csr) : ofAddress? c.address = some c := by
  cases c <;> rfl

theorem ofAddress?_eq_some_iff {a : CsrAddress} {c : Csr} :
    ofAddress? a = some c ↔ c.address = a := by
  constructor
  · intro h
    simpa using List.find?_some h
  · intro h
    rw [← h, ofAddress?_address]

/-- The register with a written name. -/
def ofName? (text : String) : Option Csr := all.find? (·.name == text)

/-- The bits that a write through an address may set. -/
def writeMask : Csr → Word
  | misa => 0
  | mtvec => ~~~3#32
  | mepc => ~~~1#32
  | _ => BitVec.allOnes 32

end Csr

/-! ## Fields of mstatus -/

/-- The position of the global interrupt enable in mstatus. -/
def mieBit : Nat := 3

/-- The position of the saved interrupt enable in mstatus. -/
def mpieBit : Nat := 7

/-- Set or clear one bit of a word. -/
def Word.assignBit (w : Word) (i : Nat) (value : Bool) : Word :=
  if value then w ||| BitVec.twoPow 32 i else w &&& ~~~(BitVec.twoPow 32 i)

/-- Assigning a bit sets that bit and leaves the others. -/
theorem Word.getLsbD_assignBit (w : Word) {i : Nat} (hi : i < 32) (j : Nat) (value : Bool) :
    (w.assignBit i value).getLsbD j = if j = i then value else w.getLsbD j := by
  unfold assignBit
  by_cases h : j = i
  · subst h
    cases value <;> simp [hi]
  · by_cases hj : j < 32
    · cases value
      · simp [h, hj]
      · simp [h, Ne.symm h]
    · rw [if_neg h, BitVec.getLsbD_of_ge _ j (by omega), BitVec.getLsbD_of_ge w j (by omega)]

/-- The value of mstatus on entry to a trap: the enable is saved and cleared. -/
def Word.mstatusOnTrap (w : Word) : Word :=
  (w.assignBit mpieBit (w.getLsbD mieBit)).assignBit mieBit false

/-- The value of mstatus on return from a trap: the saved enable comes back. -/
def Word.mstatusOnReturn (w : Word) : Word :=
  (w.assignBit mieBit (w.getLsbD mpieBit)).assignBit mpieBit false

/-! ## The bank -/

/-- The values of the control and status registers. -/
structure CsrBank where
  mstatus : Word
  misa : Word
  mie : Word
  mtvec : Word
  mscratch : Word
  mepc : Word
  mcause : Word
  mtval : Word
  mip : Word
  /-- The copy of the global interrupt enable in mstatus. -/
  interruptsEnabled : Bool
  deriving DecidableEq, Repr

namespace CsrBank

/-- The value of misa: 32 bits wide, extensions I and M. -/
def misaValue : Word := 0x40001100

/-- The trap vector after a reset. -/
def mtvecReset : Word := 0x100

/-- The bank after a reset. -/
def initial : CsrBank :=
  { mstatus := 0
    misa := misaValue
    mie := 0
    mtvec := mtvecReset
    mscratch := 0
    mepc := 0
    mcause := 0
    mtval := 0
    mip := 0
    interruptsEnabled := false }

/-- The value of a register. -/
def get (bank : CsrBank) : Csr → Word
  | .mstatus => bank.mstatus
  | .misa => bank.misa
  | .mie => bank.mie
  | .mtvec => bank.mtvec
  | .mscratch => bank.mscratch
  | .mepc => bank.mepc
  | .mcause => bank.mcause
  | .mtval => bank.mtval
  | .mip => bank.mip

/-- Replace the value of a register, without masking. -/
def set (bank : CsrBank) (c : Csr) (w : Word) : CsrBank :=
  match c with
  | .mstatus => { bank with mstatus := w, interruptsEnabled := w.getLsbD mieBit }
  | .misa => { bank with misa := w }
  | .mie => { bank with mie := w }
  | .mtvec => { bank with mtvec := w }
  | .mscratch => { bank with mscratch := w }
  | .mepc => { bank with mepc := w }
  | .mcause => { bank with mcause := w }
  | .mtval => { bank with mtval := w }
  | .mip => { bank with mip := w }

theorem get_set (bank : CsrBank) (c d : Csr) (w : Word) :
    (bank.set c w).get d = if d = c then w else bank.get d := by
  cases c <;> cases d <;> rfl

/-- The value of the register at an address, if there is one. -/
def read? (bank : CsrBank) (a : CsrAddress) : Option Word :=
  (Csr.ofAddress? a).map bank.get

/-- Write to the register at an address, as software does: the register's mask
    applies, misa keeps its value, and an address without a register is ignored. -/
def write (bank : CsrBank) (a : CsrAddress) (w : Word) : CsrBank :=
  match Csr.ofAddress? a with
  | none => bank
  | some .misa => bank
  | some c => bank.set c (w &&& c.writeMask)

end CsrBank

end Rv32Sim
