/-
  Rv32Sim.Hart.Events

  The events of one instruction, read off the state before it.
-/
import Rv32Sim.Event

namespace Rv32Sim

/-- The events of a write to the address space. -/
def Bus.writeEvents (a data : Word) : List Event :=
  if a = Bus.uartData then [.byteSent (data.byte 0)]
  else if a = Bus.mtimecmp then [.compareSet data]
  else []

/-- The events of a write through a CSR address. -/
def CsrBank.writeEvents (a : CsrAddress) (w : Word) : List Event :=
  match Csr.ofAddress? a with
  | none => [.csrMissing a]
  | some .misa => [.misaKept]
  | some c => [.csrWritten c (w &&& c.writeMask)]

/-- The events of a write besides the register result. -/
def SideEffect.events : SideEffect → List Event
  | none => []
  | store a data _ => Bus.writeEvents a data
  | csrWrite a w => CsrBank.writeEvents a w

namespace Hart

/-- The event of a fetch from memory without content. -/
def fetchEvents (h : Hart) : List Event :=
  if h.hasInstruction then [] else [.emptyFetch h.pc]

/-- The events of decoding. -/
def decodeEvents (h : Hart) (raw : Word) : Option Decoded → List Event
  | some d => .decoded d :: (if d.mnemonic = .reserved then [.reserved h.pc] else [])
  | none => [.illegal raw h.pc]

/-- The events of carrying out an effect. -/
def effectEvents (h : Hart) (raw : Word) (effect : Effect) : List Event :=
  match effect with
  | .retire _ _ side => side.events
  | .leaveTrap => [.trapLeft h.csrs.mepc h.pc]
  | .raise _ | .illegal =>
    effect.exception?.toList.map fun e => .trapEntered (.exception e) h.pc (e.trapValue raw)

/-- The events of a step. -/
def stepEvents (h : Hart) : List Event :=
  let raw := h.fetch
  let decoded := Decoder.standard.decode raw
  h.fetchEvents ++ [.fetched raw h.pc] ++ h.decodeEvents raw decoded ++
    h.effectEvents raw (h.effect decoded)

/-- The event of taking an interrupt. -/
def takeInterruptEvents (h : Hart) : List Event :=
  match h.eligible? with
  | some i => [.trapEntered (.interrupt i) h.pc 0]
  | none => []

end Hart

end Rv32Sim
