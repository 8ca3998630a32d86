/-
  Rv32Sim.Board.Run

  Runs of many cycles. A run ends when the budget is used up or a condition,
  asked before every cycle, holds. It always ends: each cycle of a running board
  either halts it or leaves fewer cycles to go (`budget_step_lt`).
-/
import Rv32Sim.Board.Basic

namespace Rv32Sim

namespace Board

/-! ## The budget -/

/-- A bound on the cycles that a board can still run for. A counter at or past
    the limit of a running board has to wrap before the limit counts again. -/
def budget (b : Board) : Nat :=
  match b.status with
  | .halt => 0
  | .running =>
    if b.cycles < b.config.maxCycles then b.config.maxCycles.toNat - b.cycles.toNat
    else 0x10000000000000000 - b.cycles.toNat + b.config.maxCycles.toNat

@[simp] theorem step_cycles (b : Board) : b.step.1.cycles = b.cycles + 1 := by
  simp only [step]

@[simp] theorem step_config (b : Board) : b.step.1.config = b.config := by
  simp only [step]

theorem step_status (b : Board) :
    b.step.1.status = if b.config.maxCycles ≤ b.cycles + 1 then .halt else b.status := by
  simp only [step]

/-- A cycle of a running board leaves fewer cycles to go. -/
theorem budget_step_lt (b : Board) (h : b.status = .running) : b.step.1.budget < b.budget := by
  have hc := b.cycles.isLt
  unfold budget
  rw [step_cycles, step_config, step_status, h]
  by_cases hm : b.config.maxCycles ≤ b.cycles + 1
  · simp only [hm, if_true]
    split <;> bv_omega
  · simp only [hm, if_false]
    split <;> split <;> bv_omega

/-! ## Runs -/

/-- Run until the budget is used up or `stop` holds before a cycle. -/
def runUntil (stop : Board → Bool) (b : Board) : Board :=
  if b.status = .running ∧ stop b = false then runUntil stop b.step.1 else b
termination_by b.budget
decreasing_by exact budget_step_lt b (And.left ‹_›)

/-- Run until the budget is used up. -/
def run (b : Board) : Board := b.runUntil fun _ => false

/-- The cycles from one state of a board to a later one. -/
def cyclesTo (b later : Board) : Count := later.cycles - b.cycles

/-! ## Stop conditions -/

/-- Conditions to stop at; each one that is given stops a run by itself. -/
structure StopCondition where
  pc : Option Word
  cycles : Option Count
  /-- The number of bytes sent on the serial line. -/
  sent : Option Nat
  inTrap : Option Bool
  /-- A register number, which may be out of range, and a value. -/
  reg : Option (Nat × Word)

/-- Whether a board meets a stop condition. The parts are asked in order, and a
    register that does not exist is an error only if it is asked for. -/
def StopCondition.isMet (c : StopCondition) (b : Board) : Except OutOfBounds Bool :=
  if c.pc = some b.hart.pc then .ok true
  else if c.cycles = some b.cycles then .ok true
  else if c.sent = some b.hart.bus.uart.sent.size then .ok true
  else if c.inTrap = some b.hart.inTrap then .ok true
  else
    match c.reg with
    | none => .ok false
    | some (n, w) => (Reg.ofNat n).map fun r => b.hart.regs.get r == w

/-- The stop condition as a question to the boards of a run from `b`. A register that
    does not exist is an error if the run asks for it before its first cycle; if it does
    not, the run is over there. -/
def StopCondition.predicate (c : StopCondition) (b : Board) :
    Except OutOfBounds (Board → Bool) :=
  let holds (b : Board) : Bool := c.isMet b matches .ok true
  if b.status = .halt then .ok holds else (c.isMet b).map fun _ => holds

end Board

end Rv32Sim
