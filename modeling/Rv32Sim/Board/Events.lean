/-
  Rv32Sim.Board.Events

  The events of a board's construction, of its cycles and runs, and of what its
  host does, and the way from the content of an image file to a board.
-/
import Rv32Sim.Board.Run
import Rv32Sim.Hart.Events
import Rv32Sim.Image

namespace Rv32Sim

namespace Board

/-- The events of building a board. -/
def newEvents (rom : Rom) (config : Config) : List Event :=
  [.boardBuilt rom.size config, .decoderBuilt isaTable.length Decoder.standard.classCount]

/-- The events of giving the interrupt lines a chance after an instruction that led to `h`. -/
def deliveryEvents (h : Hart) (cycle : Count) : List Event :=
  let h := h.syncTimerLine
  match h.eligible? with
  | some i => h.takeInterruptEvents ++ [.interruptTaken i cycle]
  | none => []

/-- The number of cycles between two progress events. -/
def progressInterval : Nat := 100000

/-- The events of a cycle. -/
def stepEvents (b : Board) : List Event :=
  let result := b.executed
  let after := b.step.1
  b.hart.tick.stepEvents ++
    (if b.config.trace then [.traced b.cycles result.2] else []) ++
    (if result.2.retired then deliveryEvents result.1 after.cycles else []) ++
    (if after.cycles.toNat % progressInterval = 0 then [.progress after.cycles after.hart.pc]
      else [])

/-- The event at the end of a run. -/
def stopEvent (b : Board) : Event := .stopped b.cycles b.instret b.hart.pc

/-- Run until the budget is used up or `stop` holds before a cycle, and append the
    events that `keep` selects. -/
def runUntilWithEvents (stop : Board → Bool) (keep : Event → Bool) (b : Board)
    (log : Array Event) : Board × Array Event :=
  if b.status = .running ∧ stop b = false then
    runUntilWithEvents stop keep b.step.1 (log ++ b.stepEvents.filter keep)
  else
    (b, log ++ [b.stopEvent].filter keep)
termination_by b.budget
decreasing_by exact budget_step_lt b (And.left ‹_›)

/-- Keeping a log does not change where a run ends. -/
theorem runUntilWithEvents_fst (stop : Board → Bool) (keep : Event → Bool) (b : Board)
    (log : Array Event) : (b.runUntilWithEvents stop keep log).1 = b.runUntil stop := by
  fun_induction runUntilWithEvents stop keep b log with
  | case1 b log h ih => rw [ih, runUntil.eq_def stop b, if_pos h]
  | case2 b log h => rw [runUntil, if_neg h]

/-- The event of driving an interrupt line. -/
def setInterruptLineEvents (i : Interrupt) (level : Bool) : List Event :=
  if i = .timer then [.timerLineKept] else [.lineDriven i level]

end Board

/-! ## From a file -/

/-- The number of words of an image that a log shows. -/
def Image.shownWords : Nat := 8

/-- The events of having read an image. -/
def Image.events (rom : Rom) : List Event :=
  (rom.toList.take shownWords).map fun (a, w) => .imageWord a w

/-- A board with the image in the content of a file. -/
def Board.ofFile (content : Except ReadError ByteArray) (config : Config) :
    Except ImageError Board :=
  match content with
  | .error e => .error (.unreadable e)
  | .ok content => (Image.ofBytes content).map fun rom => .new rom config

end Rv32Sim
