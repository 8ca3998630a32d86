/-
  Rv32Sim.Event

  The events that a log shows, with the level and the wording of each. Events
  describe what happens; nothing that happens depends on them.
-/
import Rv32Sim.Text.Field
import Rv32Sim.Hart.Step

namespace Rv32Sim

/-- How much an event matters, most first. -/
inductive Level where
  | error
  | warn
  | info
  | debug
  | trace
  deriving DecidableEq, Repr

namespace Level

/-- All levels, most important first. -/
def all : List Level := [error, warn, info, debug, trace]

/-- The place of a level in the order of importance. -/
def rank : Level → Nat
  | error => 0
  | warn => 1
  | info => 2
  | debug => 3
  | trace => 4

/-- The name by which a level is chosen. -/
def name : Level → String
  | error => "error"
  | warn => "warn"
  | info => "info"
  | debug => "debug"
  | trace => "trace"

/-- The mark of a level in a log. -/
def mark : Level → String
  | error => "ERROR"
  | warn => "WARN"
  | info => "INFO"
  | debug => "DEBUG"
  | trace => "TRACE"

/-- The level with a name. -/
def ofName? (text : String) : Option Level := all.find? (·.name == text)

end Level

/-- Something that a log shows. -/
inductive Event where
  | imageWord (a w : Word)
  | boardBuilt (romWords : Nat) (config : Config)
  | decoderBuilt (rows classes : Nat)
  | stopped (cycles instret : Count) (pc : Word)
  | progress (cycles : Count) (pc : Word)
  | emptyFetch (pc : Word)
  | fetched (raw pc : Word)
  | decoded (d : Decoded)
  | illegal (raw pc : Word)
  | reserved (pc : Word)
  | csrWritten (c : Csr) (w : Word)
  | misaKept
  | csrMissing (a : CsrAddress)
  | compareSet (w : Word)
  | byteSent (b : Byte)
  | trapEntered (cause : Cause) (pc trapValue : Word)
  | trapLeft (target pc : Word)
  | traced (cycles : Count) (record : StepRecord)
  | interruptTaken (i : Interrupt) (cycle : Count)
  | lineDriven (i : Interrupt) (level : Bool)
  | timerLineKept
  deriving DecidableEq, Repr

namespace Event

/-- Below this address a fetch without content is taken for a mistake; above it,
    for a jump into memory on purpose. -/
def fetchWarnLimit : Word := 0x10000

/-- The level of an event. -/
def level : Event → Level
  | imageWord _ _ => .debug
  | boardBuilt _ _ => .info
  | decoderBuilt _ _ => .debug
  | stopped _ _ _ => .info
  | progress _ _ => .info
  | emptyFetch pc => if pc < fetchWarnLimit then .warn else .debug
  | fetched _ _ => .trace
  | decoded _ => .trace
  | illegal _ _ => .warn
  | reserved _ => .warn
  | csrWritten _ _ => .debug
  | misaKept => .debug
  | csrMissing _ => .warn
  | compareSet _ => .debug
  | byteSent _ => .debug
  | trapEntered _ _ _ => .debug
  | trapLeft _ _ => .debug
  | traced _ _ => .debug
  | interruptTaken _ _ => .debug
  | lineDriven _ _ => .debug
  | timerLineKept => .warn

/-- The wording of an event. -/
def message : Event → String
  | imageWord a w => s!"ROM {a.hex}: {w.digits}"
  | boardBuilt romWords config =>
    s!"board: {romWords} ROM words, sp = {config.initialSp.hex}, pc = {config.resetPc.hex}, " ++
      s!"max cycles = {config.maxCycles.toNat}"
  | decoderBuilt rows classes =>
    s!"decoder has {rows} instructions in {classes} opcode classes."
  | stopped cycles instret pc =>
    s!"stopped after {cycles.toNat} cycles ({instret.toNat} instructions), pc = {pc.hex}"
  | progress cycles pc => s!"cycle {cycles.toNat}, pc = {pc.hex}"
  | emptyFetch pc => s!"PC {pc.hex} has no content, executing nop"
  | fetched raw pc => s!"raw instruction: {raw.hex} at {pc.hex}"
  | decoded d => s!"Decoded instruction: {d.mnemonic.name}, info: {d.operands.text}"
  | illegal raw pc => s!"Illegal instruction: {raw.hex} at {pc.hex}"
  | reserved pc => s!"reserved encoding at pc {pc.hex} executed as nop"
  | csrWritten c w => s!"CSR {c.name} <- {w.hex}"
  | misaKept => "write to misa ignored"
  | csrMissing a => s!"write to unimplemented CSR {Text.hexAtLeast 3 a.toNat} ignored"
  | compareSet w => s!"TIMER: mtimecmp = {w.hex}"
  | byteSent b => s!"UART TX: {Text.charLiteral b.toChar} ({Text.hexAtLeast 2 b.toNat})"
  | trapEntered cause pc trapValue =>
    s!"trap {cause.text} at pc {pc.hex}, tval {Text.hexAtLeast 1 trapValue.toNat}"
  | trapLeft target pc => s!"mret to {target.hex} from {pc.hex}"
  | traced cycles record =>
    let cycle := Text.alignRight 8 (toString cycles.toNat)
    let what := (record.decoded.map Decoded.text).getD "illegal"
    s!"[{cycle}] pc = {record.pc.hex}, raw = {record.raw.hex}, {what}"
  | interruptTaken i cycle => s!"{i.name} taken at cycle {cycle.toNat}"
  | lineDriven i level => s!"host sets {i.name} line to {level}"
  | timerLineKept => "the timer interrupt line is driven by the timer device"

/-- The line of a log that shows an event. -/
def line (e : Event) : String := e.level.mark ++ " " ++ e.message

/-- Whether a log of the given level shows an event. -/
def isShownAt (e : Event) (l : Level) : Bool := e.level.rank ≤ l.rank

end Event

end Rv32Sim
