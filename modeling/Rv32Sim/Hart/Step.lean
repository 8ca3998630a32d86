/-
  Rv32Sim.Hart.Step

  One instruction from fetch to completion. Memory without content is fetched
  as a no-op, and an exception has entered its handler when the step is over.
  Interrupts are not considered here.
-/
import Rv32Sim.Isa.Table
import Rv32Sim.Hart.Effect

namespace Rv32Sim

/-- What one step did. -/
structure StepRecord where
  /-- The address that the word was fetched from. -/
  pc : Word
  raw : Word
  /-- Absent for an illegal instruction. -/
  decoded : Option Decoded
  /-- The exception that was raised, its handler already entered. -/
  exception : Option Exception
  deriving DecidableEq, Repr

/-- Whether the instruction raised no exception. -/
def StepRecord.retired (r : StepRecord) : Bool := r.exception.isNone

namespace Hart

/-- Whether there is anything to fetch. -/
def hasInstruction (h : Hart) : Bool := h.bus.isBacked h.pc .word

/-- The word that the next step executes. -/
def fetch (h : Hart) : Word :=
  if h.hasInstruction then h.bus.read h.pc .word else nopWord

/-- Execute a word as if it were fetched from the current address. -/
def dispatch (h : Hart) (raw : Word) : Hart × StepRecord :=
  let decoded := Decoder.standard.decode raw
  let effect := h.effect decoded
  (h.apply raw effect, ⟨h.pc, raw, decoded, effect.exception?⟩)

/-- Fetch and execute one instruction. -/
def step (h : Hart) : Hart × StepRecord := h.dispatch h.fetch

end Hart

end Rv32Sim
