/-
  Rv32Sim.Hart.Trap

  The causes of a trap: the three interrupt lines of machine mode and the
  exceptions that an instruction can raise.
-/
import Rv32Sim.Word

namespace Rv32Sim

/-- The interrupt lines of machine mode. -/
inductive Interrupt where
  | software
  | timer
  | external
  deriving DecidableEq, Repr

namespace Interrupt

/-- The lines in the order of their priority, highest first. -/
def priority : List Interrupt := [timer, software, external]

/-- The number of a line: its bit in mie and its code in mcause. -/
def code : Interrupt → Nat
  | software => 3
  | timer => 7
  | external => 11

/-- The mask that selects a line. -/
def line (i : Interrupt) : Word := BitVec.twoPow 32 i.code

/-- The written name of a line. -/
def name : Interrupt → String
  | software => "MachineSoft"
  | timer => "MachineTimer"
  | external => "MachineExternal"

/-- The bits of all three lines. -/
def lines : Word := software.line ||| timer.line ||| external.line

end Interrupt

/-- What an instruction can raise. -/
inductive Exception where
  | illegalInstruction
  | breakpoint
  | environmentCall
  deriving DecidableEq, Repr

namespace Exception

/-- All exceptions, by code. -/
def all : List Exception := [illegalInstruction, breakpoint, environmentCall]

/-- The code of an exception in mcause. -/
def code : Exception → Nat
  | illegalInstruction => 2
  | breakpoint => 3
  | environmentCall => 11

/-- The written name of an exception. -/
def name : Exception → String
  | illegalInstruction => "IllegalInstruction"
  | breakpoint => "Breakpoint"
  | environmentCall => "MachineEnvCall"

/-- The trap value that goes with an exception of the instruction word `w`. -/
def trapValue (e : Exception) (w : Word) : Word :=
  match e with
  | illegalInstruction => w
  | breakpoint => 0
  | environmentCall => 0

end Exception

/-- The cause of a trap. -/
inductive Cause where
  | interrupt (i : Interrupt)
  | exception (e : Exception)
  deriving DecidableEq, Repr

namespace Cause

/-- The value of mcause; an interrupt has the top bit set. -/
def value : Cause → Word
  | interrupt i => BitVec.ofNat 32 i.code ||| BitVec.twoPow 32 31
  | exception e => BitVec.ofNat 32 e.code

/-- The line that a cause takes down. -/
def line : Cause → Word
  | interrupt i => i.line
  | exception _ => 0

/-- The written form of a cause. -/
def text : Cause → String
  | interrupt i => s!"Interrupt({i.name})"
  | exception e => s!"Exception({e.name})"

end Cause

end Rv32Sim
