/-
  Rv32Sim.Hart.RegFile

  The 32 general registers. The file itself stores what is written to x0; it is
  the end of an instruction that clears x0 again.
-/
import Rv32Sim.Isa.Operands

namespace Rv32Sim

/-- The names of the general registers by their use, in order. -/
def Reg.names : Vector String 32 :=
  #v["zero", "ra", "sp", "gp", "tp", "t0", "t1", "t2",
     "s0/fp", "s1", "a0", "a1", "a2", "a3", "a4", "a5",
     "a6", "a7", "s2", "s3", "s4", "s5", "s6", "s7",
     "s8", "s9", "s10", "s11", "t3", "t4", "t5", "t6"]

/-- The name of a register by its use. -/
def Reg.name (r : Reg) : String :=
  have h : r.toNat < 32 := r.isLt
  Reg.names[r.toNat]

/-- The register that reads as zero. -/
def Reg.zero : Reg := 0

/-- The stack pointer. -/
def Reg.sp : Reg := 2

/-- The values of the general registers. -/
structure RegFile where
  values : Vector Word 32
  deriving DecidableEq, Repr

namespace RegFile

/-- All registers zero. -/
def zeros : RegFile := ⟨Vector.replicate 32 0⟩

/-- The value of a register. -/
def get (regs : RegFile) (r : Reg) : Word :=
  have h : r.toNat < 32 := r.isLt
  regs.values[r.toNat]

/-- Replace the value of a register, x0 included. -/
def set (regs : RegFile) (r : Reg) (w : Word) : RegFile :=
  ⟨regs.values.set r.toNat w r.isLt⟩

/-- Make x0 read as zero. -/
def clearZero (regs : RegFile) : RegFile := regs.set Reg.zero 0

theorem get_set (regs : RegFile) (r s : Reg) (w : Word) :
    (regs.set r w).get s = if s = r then w else regs.get s := by
  simp only [get, set, Vector.getElem_set, BitVec.toNat_inj, eq_comm]

theorem get_clearZero (regs : RegFile) (r : Reg) :
    regs.clearZero.get r = if r = Reg.zero then 0 else regs.get r :=
  get_set regs Reg.zero r 0

theorem get_zero_clearZero (regs : RegFile) : regs.clearZero.get Reg.zero = 0 := by
  rw [get_clearZero, if_pos rfl]

/-- Register files with the same values are equal. -/
theorem ext_get {regs other : RegFile} (h : ∀ r, regs.get r = other.get r) :
    regs = other := by
  cases regs; cases other
  congr 1
  apply Vector.ext
  intro i hi
  simpa [get, Nat.mod_eq_of_lt hi] using h (BitVec.ofNat 5 i)

/-- While x0 is zero there is nothing to clear. -/
theorem clearZero_of_zero {regs : RegFile} (hzero : regs.get Reg.zero = 0) :
    regs.clearZero = regs := by
  apply ext_get
  intro r
  rw [get_clearZero]
  split
  next hr => rw [hr, hzero]
  next => rfl

/-- The values in register order. -/
def toList (regs : RegFile) : List Word := regs.values.toList

end RegFile

end Rv32Sim
