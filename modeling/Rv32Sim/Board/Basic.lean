/-
  Rv32Sim.Board.Basic

  The board: a hart, its settings and its counters. A cycle ticks the timer,
  executes one instruction, gives the timer line its level, and then, unless the
  instruction raised an exception, takes the interrupt of the highest priority.
  The cycle budget ends runs; a single cycle can be forced after it.
-/
import Rv32Sim.Hart.Step

namespace Rv32Sim

/-- Whether the cycle budget is used up. -/
inductive Status where
  | running
  | halt
  deriving DecidableEq, Repr

/-- The written name of a status. -/
def Status.name : Status → String
  | running => "Running"
  | halt => "Halt"

/-- One clock tick of the devices that the hart can address. -/
def Hart.tick (h : Hart) : Hart := { h with bus := h.bus.tick }

/-- The simulated machine. -/
structure Board where
  hart : Hart
  config : Config
  cycles : Count
  instret : Count
  status : Status
  deriving DecidableEq

namespace Board

/-- A board after a reset. -/
def new (rom : Rom) (config : Config) : Board :=
  { hart := .reset rom config
    config := config
    cycles := 0
    instret := 0
    status := if config.maxCycles = 0 then .halt else .running }

/-! ## One cycle -/

/-- The hart after the tick and the instruction of a cycle, with what the instruction did. -/
def executed (b : Board) : Hart × StepRecord := b.hart.tick.step

/-- The hart at the end of a cycle whose instruction led to `h`. An exception
    wins over the delivery of an interrupt. -/
def delivered (h : Hart) (retired : Bool) : Hart :=
  if retired then h.syncTimerLine.takeInterrupt.1 else h.syncTimerLine

/-- One cycle, also after the budget is used up. -/
def step (b : Board) : Board × StepRecord :=
  let result := b.executed
  ({ hart := delivered result.1 result.2.retired
     config := b.config
     cycles := b.cycles + 1
     instret := b.instret + 1
     status := if b.config.maxCycles ≤ b.cycles + 1 then .halt else b.status },
   result.2)

/-- One cycle, unless the budget is used up. -/
def step? (b : Board) : Option (Board × StepRecord) :=
  if b.status = .halt then none else some b.step

/-! ## The host's side -/

/-- Drive the software or the external line. The timer line follows the timer
    and cannot be driven. -/
def setInterruptLine (b : Board) (i : Interrupt) (level : Bool) : Board :=
  if i = .timer then b else { b with hart := b.hart.setPending i.line level }

/-- Write to a CSR address, with the masks of a CSR instruction. -/
def writeCsr (b : Board) (a : CsrAddress) (w : Word) : Board :=
  { b with hart := b.hart.writeCsr a w }

/-- Store through the address space. -/
def writeMem (b : Board) (a data : Word) (size : AccessSize) : Board :=
  { b with hart := b.hart.writeMem a data size }

/-- Read through the address space. -/
def readMem (b : Board) (a : Word) (size : AccessSize) : Word := b.hart.bus.read a size

/-- The words from an address on. -/
def dump (b : Board) (a : Word) (n : Nat) : List Word :=
  (List.range n).map fun i => b.readMem (a + BitVec.ofNat 32 (4 * i)) .word

end Board

end Rv32Sim
