/-
  Rv32Sim.Proofs.Board.Reachable

  The boards that a host can get to. It builds a board, has it step, and works on
  it between steps, through the board's own operations or past them on the hart.
  Whatever it does, the hart's copy of the global interrupt enable shows the bit of
  mstatus (`Reachable.mirrored`).
-/
import Rv32Sim.Board.Basic
import Rv32Sim.Proofs.Hart.Csr

namespace Rv32Sim

/-! ## The copy of the enable in a hart -/

namespace Hart

theorem mirrored_enterTrap {h : Hart} (hm : h.csrs.Mirrored) (cause : Cause) (w : Word) :
    (h.enterTrap cause w).csrs.Mirrored :=
  (((hm.set .mepc _).set .mcause _).set .mtval _).set .mstatus _

theorem mirrored_apply {h : Hart} (hm : h.csrs.Mirrored) (raw : Word) (effect : Effect) :
    (h.apply raw effect).csrs.Mirrored := by
  cases effect with
  | retire next result side =>
    cases side with
    | csrWrite a w => cases result <;> exact hm.write a w
    | _ => cases result <;> exact hm
  | raise e => exact mirrored_enterTrap (h := h.clearZero) hm _ _
  | leaveTrap => exact hm.set .mstatus _
  | illegal => exact mirrored_enterTrap hm _ _

theorem mirrored_step {h : Hart} (hm : h.csrs.Mirrored) : h.step.1.csrs.Mirrored :=
  mirrored_apply hm _ _

theorem mirrored_takeInterrupt {h : Hart} (hm : h.csrs.Mirrored) :
    h.takeInterrupt.1.csrs.Mirrored := by
  unfold takeInterrupt
  split
  · exact mirrored_enterTrap hm _ _
  · exact hm

end Hart

namespace Board

/-! ## What a host can do -/

/-- What a host does to a board: a cycle, an operation of the board, or an operation
    of its hart or its address space. -/
inductive Operation where
  | step
  | setInterruptLine (i : Interrupt) (level : Bool)
  | writeCsr (a : CsrAddress) (w : Word)
  | writeMem (a data : Word) (size : AccessSize)
  | stepHart
  | takeInterrupt
  | setPending (lines : Word) (level : Bool)
  | syncTimerLine
  | setCsr (c : Csr) (w : Word)
  | tick
  deriving DecidableEq, Repr

/-- What an operation past the board does to the hart. -/
def onHart (b : Board) (f : Hart → Hart) : Board := { b with hart := f b.hart }

/-- What an operation does. -/
def perform (b : Board) : Operation → Board
  | .step => b.step.1
  | .setInterruptLine i level => b.setInterruptLine i level
  | .writeCsr a w => b.writeCsr a w
  | .writeMem a data size => b.writeMem a data size
  | .stepHart => b.onHart fun h => h.step.1
  | .takeInterrupt => b.onHart fun h => h.takeInterrupt.1
  | .setPending lines level => b.onHart (·.setPending lines level)
  | .syncTimerLine => b.onHart Hart.syncTimerLine
  | .setCsr c w => b.onHart fun h => { h with csrs := h.csrs.set c w }
  | .tick => b.onHart Hart.tick

/-- What a list of operations does, the first one first. -/
def performAll (b : Board) (ops : List Operation) : Board := ops.foldl perform b

/-- A host can get to this board. -/
def Reachable (b : Board) : Prop :=
  ∃ (rom : Rom) (config : Config) (ops : List Operation),
    b = (Board.new rom config).performAll ops

theorem performAll_append (b : Board) (ops ops' : List Operation) :
    b.performAll (ops ++ ops') = (b.performAll ops).performAll ops' :=
  List.foldl_append

theorem Reachable.performAll {b : Board} (hb : b.Reachable) (ops : List Operation) :
    (b.performAll ops).Reachable := by
  obtain ⟨rom, config, before, rfl⟩ := hb
  exact ⟨rom, config, before ++ ops, (performAll_append _ before ops).symm⟩

theorem Reachable.step {b : Board} (hb : b.Reachable) : b.step.1.Reachable :=
  hb.performAll [.step]

/-- The board after `n` cycles. -/
def after (b : Board) : Nat → Board
  | 0 => b
  | n + 1 => (b.after n).step.1

theorem Reachable.after {b : Board} (hb : b.Reachable) (n : Nat) : (b.after n).Reachable := by
  induction n with
  | zero => exact hb
  | succ n ih => exact ih.step

/-- What holds of a new board and is kept by every operation holds of every board
    that a host can get to. -/
theorem Reachable.induction {motive : Board → Prop}
    (hnew : ∀ rom config, motive (.new rom config))
    (hperform : ∀ b op, motive b → motive (b.perform op)) {b : Board} (hb : b.Reachable) :
    motive b := by
  obtain ⟨rom, config, ops, rfl⟩ := hb
  have hall (b : Board) (h : motive b) : motive (b.performAll ops) := by
    induction ops generalizing b with
    | nil => exact h
    | cons op ops ih => exact ih _ (hperform b op h)
  exact hall _ (hnew rom config)

/-! ## The copy of the enable in a board -/

theorem mirrored_executed {b : Board} (hm : b.hart.csrs.Mirrored) :
    b.executed.1.csrs.Mirrored :=
  Hart.mirrored_step (h := b.hart.tick) hm

theorem mirrored_step {b : Board} (hm : b.hart.csrs.Mirrored) :
    b.step.1.hart.csrs.Mirrored := by
  have hs : b.executed.1.syncTimerLine.csrs.Mirrored := mirrored_executed hm
  change (delivered _ _).csrs.Mirrored
  unfold delivered
  split
  · exact Hart.mirrored_takeInterrupt hs
  · exact hs

theorem mirrored_perform {b : Board} (hm : b.hart.csrs.Mirrored) (op : Operation) :
    (b.perform op).hart.csrs.Mirrored := by
  cases op with
  | step => exact mirrored_step hm
  | setInterruptLine i level =>
    change (b.setInterruptLine i level).hart.csrs.Mirrored
    unfold setInterruptLine
    split <;> exact hm
  | writeCsr a w => exact hm.write a w
  | stepHart => exact Hart.mirrored_step hm
  | takeInterrupt => exact Hart.mirrored_takeInterrupt hm
  | setCsr c w => exact hm.set c w
  | _ => exact hm

/-- The copy of the enable agrees with mstatus on every board that a host can get to. -/
theorem Reachable.mirrored {b : Board} (hb : b.Reachable) : b.hart.csrs.Mirrored :=
  hb.induction (motive := fun b => b.hart.csrs.Mirrored)
    (fun _ _ => CsrBank.Mirrored.initial) fun _ op hm => mirrored_perform hm op

end Board

end Rv32Sim
