/-
  Rv32Sim.Proofs.Board.TrapReturn

  Return from a trap, cycle by cycle. A handler that is nothing but the return word
  gives the interrupted program back as it was (`ResumedFrom`); if another interrupt is
  due by then, the next handler starts with the same address to return to
  (`InterruptedFrom`), however often that happens.
-/
import Rv32Sim.Proofs.Board.Delivery
import Rv32Sim.Proofs.Board.Registers

namespace Rv32Sim

/-! ## What a trap leaves alone -/

/-- The part of a hart that neither entry to a trap nor return from it touches, nor a
    tick of the timer. -/
structure Context where
  regs : RegFile
  rom : Rom
  ram : Ram
  uart : Uart
  mtimecmp : Word
  misa : Word
  mie : Word
  mtvec : Word
  mscratch : Word
  mip : Word
  deriving DecidableEq

namespace Hart

/-- The context of a state. -/
def context (h : Hart) : Context :=
  { regs := h.regs
    rom := h.bus.rom
    ram := h.bus.ram
    uart := h.bus.uart
    mtimecmp := h.bus.timer.mtimecmp
    misa := h.csrs.misa
    mie := h.csrs.mie
    mtvec := h.csrs.mtvec
    mscratch := h.csrs.mscratch
    mip := h.csrs.mip }

/-- `h` has just entered its handler, and would return into the state `t`. -/
structure InterruptedFrom (t h : Hart) : Prop where
  context : h.context = t.context
  pc : h.pc = t.csrs.mtvec
  inTrap : h.inTrap = true
  mepc : h.csrs.mepc = t.pc
  mstatus : h.csrs.mstatus = t.csrs.mstatus.mstatusOnTrap

/-- `h` goes on where the state `t` was interrupted. -/
structure ResumedFrom (t h : Hart) : Prop where
  context : h.context = t.context
  pc : h.pc = t.pc
  inTrap : h.inTrap = false
  mstatus : h.csrs.mstatus = t.csrs.mstatus.assignBit 7 false
  enable : h.csrs.interruptsEnabled = t.csrs.interruptsEnabled

/-- The return word takes a state that was interrupted back to where it came from. -/
theorem InterruptedFrom.leaveTrap {t h : Hart} (ht : t.csrs.Mirrored)
    (hfrom : InterruptedFrom t h) : ResumedFrom t h.tick.leaveTrap := by
  have henable : h.csrs.mstatus.getLsbD mpieBit = t.csrs.interruptsEnabled := by
    rw [hfrom.mstatus, Word.getLsbD_mstatusOnTrap, if_neg (by decide), if_pos rfl, ht]
  have hmstatus : h.csrs.mstatus.mstatusOnReturn = t.csrs.mstatus.assignBit 7 false := by
    rw [hfrom.mstatus, Word.mstatusOnReturn_mstatusOnTrap]
    rfl
  rw [leaveTrap_eq]
  exact {
    context := hfrom.context
    pc := hfrom.mepc
    inTrap := rfl
    mstatus := hmstatus
    enable := henable }

/-- Delivery in a state that agrees with `t` as far as a handler can tell. -/
theorem InterruptedFrom.interrupted {t s : Hart} (i : Interrupt)
    (hcontext : s.context = t.context) (hpc : s.pc = t.pc)
    (hmstatus : s.csrs.mstatus.mstatusOnTrap = t.csrs.mstatus.mstatusOnTrap)
    (henable : s.csrs.mstatus.getLsbD mieBit = true) :
    InterruptedFrom t (s.interrupted i) :=
  { context := hcontext
    pc := congrArg Context.mtvec hcontext
    inTrap := rfl
    mepc := hpc
    mstatus := by
      rw [← hmstatus, Word.mstatusOnTrap, henable]
      rfl }

end Hart

namespace Board

open Hart

/-! ## One cycle of a handler -/

/-- The next cycle of `b` executes the return word. -/
def Returns (b : Board) : Prop := b.step.2.raw = mretWord

instance (b : Board) : Decidable b.Returns := inferInstanceAs (Decidable (_ = _))

theorem executed_of_returns {b : Board} (hzero : b.hart.regs.get Reg.zero = 0)
    (hreturns : b.Returns) : b.executed.1 = b.hart.tick.leaveTrap := by
  have hfetch : b.hart.tick.fetch = mretWord := hreturns
  change (b.hart.tick.dispatch b.hart.tick.fetch).1 = _
  rw [hfetch, dispatch_mretWord]
  exact clearZero_of_zero (h := b.hart.tick.leaveTrap) hzero

/-- A cycle that takes an interrupt leaves the state after its instruction. -/
theorem interruptedFrom_step {b : Board} (hm : b.hart.csrs.Mirrored) {i : Interrupt}
    (htaken : b.taken? = some i) : InterruptedFrom b.executed.1 b.step.1.hart := by
  have hdue := ((taken?_eq_some_iff hm i).1 htaken).1
  rw [step_hart_of_taken hm htaken]
  exact .interrupted i rfl rfl rfl hdue.enable

/-- The instruction of a cycle that returns resumes what was interrupted. -/
theorem resumedFrom_executed {t : Hart} {b : Board} (ht : t.csrs.Mirrored)
    (hb : b.Reachable) (hfrom : InterruptedFrom t b.hart) (hreturns : b.Returns) :
    ResumedFrom t b.executed.1 := by
  rw [executed_of_returns hb.zero hreturns]
  exact hfrom.leaveTrap ht

/-- With nothing due, the return word resumes what was interrupted. -/
theorem resumedFrom_step {t : Hart} {b : Board} (ht : t.csrs.Mirrored)
    (hb : b.Reachable) (hfrom : InterruptedFrom t b.hart) (hreturns : b.Returns)
    (hnone : ∀ j, ¬b.IsDue j) : ResumedFrom t b.step.1.hart := by
  have hresumed := resumedFrom_executed ht hb hfrom hreturns
  rw [step_hart_of_not_taken ((taken?_eq_none_iff hb.mirrored).2 hnone)]
  exact {
    context := hresumed.context
    pc := hresumed.pc
    inTrap := hresumed.inTrap
    mstatus := hresumed.mstatus
    enable := hresumed.enable }

/-- With another interrupt due, the return word leads to a handler that returns to the
    same address. -/
theorem interruptedFrom_step_again {t : Hart} {b : Board} (ht : t.csrs.Mirrored)
    (hb : b.Reachable) (hfrom : InterruptedFrom t b.hart) (hreturns : b.Returns)
    (hdue : ∃ j, b.IsDue j) : InterruptedFrom t b.step.1.hart := by
  have hresumed := resumedFrom_executed ht hb hfrom hreturns
  have hm := hb.mirrored
  obtain ⟨j, hj⟩ := hdue
  cases htaken : b.taken? with
  | none => exact absurd hj ((taken?_eq_none_iff hm).1 htaken j)
  | some i =>
    have henable := ((taken?_eq_some_iff hm i).1 htaken).1.enable
    -- the return has cleared bit 7, which the entry overwrites
    have hmstatus : b.executed.1.csrs.mstatus.mstatusOnTrap = t.csrs.mstatus.mstatusOnTrap := by
      rw [hresumed.mstatus]
      exact Word.mstatusOnTrap_assignBit _ false
    rw [step_hart_of_taken hm htaken]
    exact .interrupted i hresumed.context hresumed.pc hmstatus henable

/-! ## Back-to-back deliveries -/

/-- After a delivery, `n` cycles that each return and deliver again. -/
theorem interruptedFrom_after {b : Board} (hb : b.Reachable) {i : Interrupt}
    (htaken : b.taken? = some i) {n : Nat}
    (hagain : ∀ k < n, (b.after (k + 1)).Returns ∧ ∃ j, (b.after (k + 1)).IsDue j) :
    InterruptedFrom b.executed.1 (b.after (n + 1)).hart := by
  have ht : b.executed.1.csrs.Mirrored := mirrored_executed hb.mirrored
  -- the state to return to is the same `b.executed.1` in every round
  induction n with
  | zero => exact interruptedFrom_step hb.mirrored htaken
  | succ n ih =>
    have hfrom := ih fun k hk => hagain k (Nat.lt_succ_of_lt hk)
    obtain ⟨hreturns, hdue⟩ := hagain n (Nat.lt_succ_self n)
    exact interruptedFrom_step_again ht (hb.after (n + 1)) hfrom hreturns hdue

/-- **Transparent traps.** Return straight after entry restores the state but for what
    tells the handler why it runs, as long as x0 is zero. On a board, a program that was
    interrupted is resumed by the first return word after which nothing is due, however many
    deliveries, each followed by a return word, lie in between. -/
theorem trap_return_transparent :
    (∀ h : Hart, h.regs.get Reg.zero = 0 → h.csrs.Mirrored →
      ∀ (cause : Cause) (trapValue : Word),
      ((h.enterTrap cause trapValue).dispatch mretWord).1 =
        { h with
          csrs := { h.csrs with
            mepc := h.pc
            mcause := cause.value
            mtval := trapValue
            mstatus := h.csrs.mstatus.assignBit 7 false }
          inTrap := false
          pending :=
            match cause with
            | .interrupt i => h.pending.assignBit i.code false
            | .exception _ => h.pending }) ∧
    (∀ b : Board, b.Reachable → ∀ i, b.taken? = some i → ∀ n,
      (∀ k < n, (b.after (k + 1)).Returns ∧ ∃ j, (b.after (k + 1)).IsDue j) →
        InterruptedFrom b.executed.1 (b.after (n + 1)).hart ∧
        ((b.after (n + 1)).Returns → (∃ j, (b.after (n + 1)).IsDue j) →
          InterruptedFrom b.executed.1 (b.after (n + 2)).hart) ∧
        ((b.after (n + 1)).Returns → (∀ j, ¬(b.after (n + 1)).IsDue j) →
          ResumedFrom b.executed.1 (b.after (n + 2)).hart)) := by
  constructor
  · intro h hzero hm cause trapValue
    have hcleared : (h.enterTrap cause trapValue).leaveTrap.clearZero = _ :=
      clearZero_of_zero hzero
    rw [dispatch_mretWord, hcleared, leaveTrap_enterTrap hm]
    cases cause with
    | interrupt i => rfl
    | exception e =>
      rw [Cause.and_not_line_exception]
      rfl
  · intro b hb i htaken n hagain
    have ht : b.executed.1.csrs.Mirrored := mirrored_executed hb.mirrored
    have hlast := hb.after (n + 1)
    have hfrom := interruptedFrom_after hb htaken hagain
    exact ⟨hfrom, interruptedFrom_step_again ht hlast hfrom, resumedFrom_step ht hlast hfrom⟩

/-- Two lines of the host are up and the handler is the return word alone: the external
    line is delivered on return from the software line, and the return after that
    resumes. -/
theorem trap_return_transparent_of_two :
    let b := (Board.new (Rom.ofList [(CsrBank.mtvecReset, mretWord)]) .standard).performAll
      [.writeCsr Csr.mie.address 0x808, .writeCsr Csr.mstatus.address 8,
        .setInterruptLine .software true, .setInterruptLine .external true]
    InterruptedFrom b.executed.1 (b.after 2).hart ∧
      ResumedFrom b.executed.1 (b.after 3).hart ∧
      ((b.hart.enterTrap (.exception .breakpoint) 0).dispatch mretWord).1.pc = b.hart.pc := by
  intro b
  have hb : b.Reachable := ⟨_, _, _, rfl⟩
  have htaken : b.taken? = some .software := by decide +kernel
  have hagain : ∀ k < 1, (b.after (k + 1)).Returns ∧ ∃ j, (b.after (k + 1)).IsDue j := by
    intro k hk
    have hzero : k = 0 := by omega
    subst hzero
    exact ⟨by decide +kernel, .external, by decide +kernel⟩
  have hreturns : (b.after 2).Returns := by decide +kernel
  have hnone (j : Interrupt) : ¬(b.after 2).IsDue j := by cases j <;> decide +kernel
  obtain ⟨entered, runs⟩ := trap_return_transparent
  obtain ⟨hinterrupted, -, hresumed⟩ := runs b hb .software htaken 1 hagain
  refine ⟨hinterrupted, hresumed hreturns hnone, ?_⟩
  rw [entered b.hart hb.zero hb.mirrored]

end Board

end Rv32Sim
