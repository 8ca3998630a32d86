/-
  Rv32Sim.Proofs.Board.Delivery

  Which interrupt a cycle takes, and what taking it does. A cycle ticks the timer,
  executes an instruction, gives the timer line its level and only then decides, so
  the decision is read off the state after the instruction (`IsDue`), except that the
  software and the external line are still as they were before the cycle.
-/
import Rv32Sim.Proofs.Board.Reachable
import Rv32Sim.Proofs.Hart.Independence

namespace Rv32Sim

/-! ## Priority -/

namespace Interrupt

/-- The number of lines that go before this one. -/
def rank : Interrupt → Nat
  | timer => 0
  | software => 1
  | external => 2

/-- The code tells the lines apart. -/
theorem code_inj {i j : Interrupt} : i.code = j.code ↔ i = j := by
  cases i <;> cases j <;> decide

/-- Every line has a bit of its own in a word. -/
theorem code_lt (i : Interrupt) : i.code < 32 := by
  cases i <;> decide

/-- A search by priority stops at the line that has no other before it. -/
theorem find?_priority_eq_some_iff (p : Interrupt → Bool) (i : Interrupt) :
    priority.find? p = some i ↔ p i = true ∧ ∀ j : Interrupt, j.rank < i.rank → p j = false := by
  have hall (q : Interrupt → Prop) : (∀ j, q j) ↔ q timer ∧ q software ∧ q external :=
    ⟨fun h => ⟨h _, h _, h _⟩, fun h j => by cases j <;> simp only [h]⟩
  rw [hall]
  cases i <;> cases ht : p timer <;> cases hs : p software <;> cases he : p external <;>
    simp [priority, rank, ht, hs, he]

end Interrupt

/-! ## Lines of the hart -/

namespace Hart

/-- The timer line follows the timer; the other lines stay. -/
theorem syncTimerLine_eq (h : Hart) :
    h.syncTimerLine =
      { h with pending := h.pending.assignBit Interrupt.timer.code h.bus.timer.isPending } := rfl

/-- The level that the timer line had before is forgotten. -/
theorem syncTimerLine_withPending (h : Hart) (level : Bool) :
    (h.withPending (h.pending.assignBit 7 level)).syncTimerLine = h.syncTimerLine := by
  have hlines := Word.assignBit_assignBit h.pending (i := 7) (by decide) level
    h.bus.timer.isPending
  exact congrArg h.withPending hlines

/-- A line counts if it is up, and enabled by itself and by mstatus. -/
theorem isEligible_iff {h : Hart} (hm : h.csrs.Mirrored) (i : Interrupt) :
    h.isEligible i = true ↔
      h.csrs.mstatus.getLsbD mieBit = true ∧ h.csrs.mie.getLsbD i.code = true ∧
        h.pending.getLsbD i.code = true := by
  rw [isEligible, hm, BitVec.getLsbD_and, Bool.and_eq_true, Bool.and_eq_true,
    and_comm (a := h.pending.getLsbD i.code = true)]

/-- No instruction moves a line. -/
theorem step_pending (h : Hart) : h.step.1.pending = h.pending := by
  have hsame : (h.withPending h.pending).step = h.step := rfl
  rw [← hsame, step_withPending]
  rfl

theorem takeInterrupt_snd (h : Hart) : h.takeInterrupt.2 = h.eligible? := by
  unfold takeInterrupt
  split
  next i hi => exact hi.symm
  next hnone => exact hnone.symm

/-! ## Both ends of a cycle -/

/-- The state after the interrupt `i` is taken in the state `s` that an instruction led to. -/
def interrupted (s : Hart) (i : Interrupt) : Hart :=
  { s with
    csrs := { s.csrs with
      mepc := s.pc
      mcause := BitVec.ofNat 32 (0x80000000 + i.code)
      mtval := 0
      mstatus := (s.csrs.mstatus.assignBit 7 true).assignBit 3 false
      interruptsEnabled := false }
    pc := s.csrs.mtvec
    inTrap := true
    pending := (s.pending.assignBit 7 s.bus.timer.isPending).assignBit i.code false }

/-- The state after no interrupt is taken in the state `s` that an instruction led to. -/
def undisturbed (s : Hart) : Hart :=
  { s with pending := s.pending.assignBit 7 s.bus.timer.isPending }

theorem enterTrap_interrupt {s : Hart} (i : Interrupt)
    (henable : s.csrs.mstatus.getLsbD mieBit = true) :
    s.syncTimerLine.enterTrap (.interrupt i) 0 = s.interrupted i := by
  have hcause : (Cause.interrupt i).value = BitVec.ofNat 32 (0x80000000 + i.code) := by
    cases i <;> decide
  have hmstatus : s.syncTimerLine.csrs.mstatus.mstatusOnTrap =
      (s.csrs.mstatus.assignBit 7 true).assignBit 3 false := by
    change s.csrs.mstatus.mstatusOnTrap = _
    rw [Word.mstatusOnTrap, henable]
    rfl
  rw [enterTrap_eq, hcause, hmstatus]
  rfl

end Hart

namespace Board

/-! ## Due interrupts -/

/-- The level of a line when a cycle decides: the timer is compared after the
    instruction, and the host's lines are as before the cycle. -/
def IsUp (b : Board) : Interrupt → Prop
  | .timer => b.executed.1.bus.timer.mtimecmp.toNat ≤ b.executed.1.bus.timer.mtime.toNat
  | .software => b.hart.pending.getLsbD Interrupt.software.code = true
  | .external => b.hart.pending.getLsbD Interrupt.external.code = true

instance (b : Board) (i : Interrupt) : Decidable (b.IsUp i) :=
  match i with
  | .timer => inferInstanceAs (Decidable (_ ≤ _))
  | .software => inferInstanceAs (Decidable (_ = true))
  | .external => inferInstanceAs (Decidable (_ = true))

/-- The next cycle of `b` finds the interrupt `i` up and enabled after its instruction. -/
structure IsDue (b : Board) (i : Interrupt) : Prop where
  retired : b.executed.2.exception = none
  enable : b.executed.1.csrs.mstatus.getLsbD 3 = true
  enabled : b.executed.1.csrs.mie.getLsbD i.code = true
  isUp : b.IsUp i

theorem isDue_iff_and (b : Board) (i : Interrupt) :
    b.IsDue i ↔
      b.executed.2.exception = none ∧ b.executed.1.csrs.mstatus.getLsbD 3 = true ∧
        b.executed.1.csrs.mie.getLsbD i.code = true ∧ b.IsUp i :=
  ⟨fun h => ⟨h.retired, h.enable, h.enabled, h.isUp⟩, fun ⟨h₁, h₂, h₃, h₄⟩ => ⟨h₁, h₂, h₃, h₄⟩⟩

instance (b : Board) (i : Interrupt) : Decidable (b.IsDue i) :=
  decidable_of_iff' _ (b.isDue_iff_and i)

/-- The due interrupt that has no other due before it. -/
def IsNext (b : Board) (i : Interrupt) : Prop :=
  b.IsDue i ∧ ∀ j : Interrupt, j.rank < i.rank → ¬b.IsDue j

/-- The interrupt that the next cycle takes. -/
def taken? (b : Board) : Option Interrupt :=
  if b.executed.2.retired then b.executed.1.syncTimerLine.takeInterrupt.2 else none

theorem executed_pending (b : Board) : b.executed.1.pending = b.hart.pending :=
  Hart.step_pending b.hart.tick

/-- The lines that the decision looks at are up by the levels of the cycle. -/
theorem isUp_iff (b : Board) (i : Interrupt) :
    b.executed.1.syncTimerLine.pending.getLsbD i.code = true ↔ b.IsUp i := by
  rw [Hart.syncTimerLine_eq]
  change (Word.assignBit _ _ _).getLsbD _ = true ↔ _
  rw [Word.getLsbD_assignBit _ (by decide), executed_pending]
  -- only the timer's own line was assigned; the others are those before the cycle
  cases i with
  | timer =>
    rw [if_pos rfl]
    exact decide_eq_true_iff
  | software => rw [if_neg (by decide)]; rfl
  | external => rw [if_neg (by decide)]; rfl

theorem isDue_iff {b : Board} (hm : b.hart.csrs.Mirrored) (i : Interrupt) :
    b.IsDue i ↔
      b.executed.2.exception = none ∧ b.executed.1.syncTimerLine.isEligible i = true := by
  have hs : b.executed.1.syncTimerLine.csrs.Mirrored := mirrored_executed hm
  rw [Hart.isEligible_iff hs, isUp_iff]
  exact b.isDue_iff_and i

theorem retired_iff (b : Board) : b.executed.2.retired = true ↔ b.executed.2.exception = none := by
  rw [StepRecord.retired, Option.isNone_iff_eq_none]

theorem taken?_of_retired {b : Board} (hretired : b.executed.2.exception = none) :
    b.taken? = b.executed.1.syncTimerLine.eligible? := by
  rw [taken?, if_pos (b.retired_iff.2 hretired), Hart.takeInterrupt_snd]

theorem taken?_of_exception {b : Board} (hexc : b.executed.2.exception ≠ none) :
    b.taken? = none := by
  rw [taken?, if_neg (mt b.retired_iff.1 hexc)]

/-- The interrupt that is taken is the due one that goes first. -/
theorem taken?_eq_some_iff {b : Board} (hm : b.hart.csrs.Mirrored) (i : Interrupt) :
    b.taken? = some i ↔ b.IsNext i := by
  unfold IsNext
  simp only [isDue_iff hm]
  by_cases hretired : b.executed.2.exception = none
  · rw [taken?_of_retired hretired, Hart.eligible?, Interrupt.find?_priority_eq_some_iff]
    simp only [hretired, true_and, Bool.not_eq_true]
  · rw [taken?_of_exception hretired]
    simp only [hretired, false_and, reduceCtorEq]

/-- None is taken only if none is due. -/
theorem taken?_eq_none_iff {b : Board} (hm : b.hart.csrs.Mirrored) :
    b.taken? = none ↔ ∀ i, ¬b.IsDue i := by
  have hmem (i : Interrupt) : i ∈ Interrupt.priority := by cases i <;> decide
  simp only [isDue_iff hm]
  by_cases hretired : b.executed.2.exception = none
  · rw [taken?_of_retired hretired, Hart.eligible?, List.find?_eq_none]
    simp only [hretired, true_and, hmem, true_imp_iff]
  · rw [taken?_of_exception hretired]
    simp only [hretired, false_and, not_false_eq_true, implies_true]

/-! ## The state after a cycle -/

/-- A cycle that takes an interrupt enters its handler after the instruction. -/
theorem step_hart_of_taken {b : Board} (hm : b.hart.csrs.Mirrored) {i : Interrupt}
    (htaken : b.taken? = some i) : b.step.1.hart = b.executed.1.interrupted i := by
  have hdue : b.IsDue i := ((taken?_eq_some_iff hm i).1 htaken).1
  rw [taken?_of_retired hdue.retired] at htaken
  change delivered b.executed.1 b.executed.2.retired = _
  rw [delivered, if_pos (b.retired_iff.2 hdue.retired), Hart.takeInterrupt, htaken]
  exact Hart.enterTrap_interrupt i hdue.enable

/-- A cycle that takes no interrupt only brings the timer line up to date. -/
theorem step_hart_of_not_taken {b : Board} (htaken : b.taken? = none) :
    b.step.1.hart = b.executed.1.undisturbed := by
  change delivered b.executed.1 b.executed.2.retired = _
  unfold delivered
  split
  next hretired =>
    rw [taken?_of_retired (b.retired_iff.1 hretired)] at htaken
    rw [Hart.takeInterrupt, htaken]
    rfl
  next => rfl

/-! ## Trap entries -/

/-- The causes whose handlers the next cycle enters, in order. -/
def entries (b : Board) : List Cause :=
  (b.executed.2.exception.map Cause.exception).toList ++ (b.taken?.map Cause.interrupt).toList

/-- The causes whose handlers the cycles of a run enter, in order. -/
def entriesOver (b : Board) : List Operation → List Cause
  | [] => []
  | .step :: ops => b.entries ++ b.step.1.entriesOver ops
  | op :: ops => (b.perform op).entriesOver ops

/-- An exception keeps interrupts out of its cycle. -/
theorem length_entries_le (b : Board) : b.entries.length ≤ 1 := by
  unfold entries
  cases hexc : b.executed.2.exception with
  | none =>
    rw [Option.map_none, Option.toList_none, List.nil_append, Option.length_toList]
    split <;> omega
  | some e =>
    have hsome : b.executed.2.exception ≠ none := by
      rw [hexc]
      exact Option.some_ne_none e
    rw [taken?_of_exception hsome]
    exact Nat.le_refl 1

theorem length_entriesOver_le (b : Board) (ops : List Operation) :
    (b.entriesOver ops).length ≤ ops.count .step := by
  induction ops generalizing b with
  | nil => exact Nat.le_refl 0
  | cons op ops ih =>
    by_cases hop : op = .step
    · subst hop
      have hone := b.length_entries_le
      have hrest := ih b.step.1
      rw [entriesOver, List.length_append, List.count_cons_self]
      omega
    · -- what the host does between cycles is not counted
      have hskip : b.entriesOver (op :: ops) = (b.perform op).entriesOver ops := by
        cases op <;> first | rfl | exact absurd rfl hop
      rw [hskip, List.count_cons_of_ne hop]
      exact ih _

/-! ## Lines that the host drives -/

/-- A line that the host drives stays up until its interrupt is taken. -/
theorem step_pending {b : Board} (hm : b.hart.csrs.Mirrored) {i : Interrupt}
    (hi : i ≠ .timer) :
    b.step.1.hart.pending.getLsbD i.code = true ↔
      b.hart.pending.getLsbD i.code = true ∧ b.taken? ≠ some i := by
  have hsync : i.code ≠ 7 := fun h => hi ((Interrupt.code_inj (j := .timer)).1 h)
  have hline : (b.executed.1.pending.assignBit 7 b.executed.1.bus.timer.isPending).getLsbD i.code =
      b.hart.pending.getLsbD i.code := by
    rw [Word.getLsbD_assignBit _ (by decide), if_neg hsync, executed_pending]
  cases htaken : b.taken? with
  | none =>
    rw [step_hart_of_not_taken htaken, Hart.undisturbed, hline]
    exact ⟨fun h => ⟨h, nofun⟩, And.left⟩
  | some j =>
    -- delivery takes down the line of `j`, so the line of `i` only if they are the same
    rw [step_hart_of_taken hm htaken, Hart.interrupted, Word.getLsbD_assignBit _ j.code_lt, hline]
    by_cases hij : i = j
    · subst hij
      rw [if_pos rfl]
      exact ⟨nofun, fun h => absurd rfl h.2⟩
    · rw [if_neg fun h => hij (Interrupt.code_inj.1 h)]
      exact ⟨fun h => ⟨h, fun heq => hij (Option.some.inj heq).symm⟩, And.left⟩

/-- A line whose interrupt was taken stays down until the host brings it up again. -/
theorem after_pending_of_taken {b : Board} (hb : b.Reachable) {i : Interrupt} (hi : i ≠ .timer)
    {m : Nat} (htaken : (b.after m).taken? = some i) (k : Nat) :
    (b.after (m + 1 + k)).hart.pending.getLsbD i.code = false := by
  have hstep (n : Nat) := step_pending (hb.after n).mirrored hi
  -- taken down by the delivery, and no later cycle brings it up
  induction k with
  | zero =>
    have hdown := mt (hstep m).1 fun h => h.2 htaken
    exact Bool.eq_false_iff.2 hdown
  | succ k ih =>
    have hdown := mt (hstep (m + 1 + k)).1 fun h => Bool.false_ne_true (ih.symm.trans h.1)
    exact Bool.eq_false_iff.2 hdown

/-- While the host stays away, each line that it drives interrupts once at most. -/
theorem taken?_ne_of_taken {b : Board} (hb : b.Reachable) {i : Interrupt} (hi : i ≠ .timer)
    {m n : Nat} (hmn : m < n) (htaken : (b.after m).taken? = some i) :
    (b.after n).taken? ≠ some i := by
  intro hagain
  have hdue := ((taken?_eq_some_iff (hb.after n).mirrored i).1 hagain).1
  have hdown := after_pending_of_taken hb hi htaken (n - (m + 1))
  rw [Nat.add_sub_cancel' hmn] at hdown
  have hup : (b.after n).hart.pending.getLsbD i.code = true := by
    cases i with
    | timer => exact absurd rfl hi
    | software => exact hdue.isUp
    | external => exact hdue.isUp
  rw [hdown] at hup
  cases hup

/-! ## What delivery does not see -/

theorem delivered_of_syncTimerLine {h h' : Hart} (heq : h'.syncTimerLine = h.syncTimerLine)
    (retired : Bool) : delivered h' retired = delivered h retired := by
  rw [delivered, delivered, heq]

/-- The level that the timer line has before a cycle is forgotten. -/
theorem step_of_timerLine (b : Board) (level : Bool) :
    (b.onHart fun h => h.withPending (h.pending.assignBit 7 level)).step = b.step := by
  have hexecuted : (b.onHart fun h => h.withPending (h.pending.assignBit 7 level)).executed =
      (b.executed.1.withPending (b.executed.1.pending.assignBit 7 level), b.executed.2) := by
    rw [executed_pending]
    exact Hart.step_withPending b.hart.tick (b.hart.pending.assignBit 7 level)
  have hhart (retired : Bool) :=
    delivered_of_syncTimerLine (b.executed.1.syncTimerLine_withPending level) retired
  -- the counters depend on neither
  unfold step
  simp only [hexecuted, hhart]
  rfl

/-- What mip holds decides nothing. -/
theorem step_of_mip (b : Board) (w : Word) :
    (b.onHart (·.withMip w)).taken? = b.taken? ∧
      (b.onHart (·.withMip w)).step.2 = b.step.2 ∧
      Hart.AgreesButMip b.step.1.hart (b.onHart (·.withMip w)).step.1.hart := by
  obtain ⟨hrecord, hhart⟩ := Hart.step_withMip b.hart.tick w
  have hsync := Hart.AgreesButMip.syncTimerLine hhart
  obtain ⟨htaken, hdelivered⟩ := Hart.AgreesButMip.takeInterrupt hsync
  change (b.onHart (·.withMip w)).executed.2 = b.executed.2 at hrecord
  refine ⟨?_, hrecord, ?_⟩
  · unfold taken?
    rw [hrecord]
    split
    next => exact htaken
    next => rfl
  · change Hart.AgreesButMip (delivered _ _) (delivered _ _)
    rw [hrecord]
    unfold delivered
    split
    next => exact hdelivered
    next => exact hsync

/-! ## Exact delivery -/

/-- The next cycle of `b` takes the interrupt that the state after its instruction calls
    for, and takes it without any other trace. -/
structure DeliversExactly (b : Board) : Prop where
  taken : ∀ i, b.taken? = some i ↔ b.IsNext i
  lines : b.executed.1.pending = b.hart.pending
  hartIfTaken : ∀ i, b.taken? = some i → b.step.1.hart = b.executed.1.interrupted i
  hartIfNone : b.taken? = none → b.step.1.hart = b.executed.1.undisturbed
  entries : b.entries.length ≤ 1
  timerLine : ∀ level,
    (b.onHart fun h => h.withPending (h.pending.assignBit 7 level)).step = b.step
  mip : ∀ w,
    (b.onHart (·.withMip w)).taken? = b.taken? ∧
      (b.onHart (·.withMip w)).step.2 = b.step.2 ∧
      Hart.AgreesButMip b.step.1.hart (b.onHart (·.withMip w)).step.1.hart

/-- **Exact delivery.** Every cycle of a board that a host can get to delivers exactly;
    over a run there are no more trap entries than cycles, and a line that the host drives
    interrupts once at most while the host stays away. -/
theorem interrupt_delivery_exact {b : Board} (hb : b.Reachable) :
    b.DeliversExactly ∧
    (∀ ops, (b.entriesOver ops).length ≤ ops.count .step) ∧
    (∀ i, i ≠ .timer → ∀ m n, m < n → (b.after m).taken? = some i →
      (b.after n).taken? ≠ some i) := by
  have hm := hb.mirrored
  refine ⟨?_, b.length_entriesOver_le, fun i hi m n hmn => taken?_ne_of_taken hb hi hmn⟩
  exact {
    taken := taken?_eq_some_iff hm
    lines := b.executed_pending
    hartIfTaken := fun i => step_hart_of_taken hm
    hartIfNone := step_hart_of_not_taken
    entries := b.length_entries_le
    timerLine := b.step_of_timerLine
    mip := b.step_of_mip }

/-- The timer goes before the software line, and finds its own line already up. -/
theorem interrupt_delivery_exact_of_two :
    let b := (Board.new .empty .standard).performAll
      [.writeMem 0x20000008 1 .word, .writeCsr Csr.mie.address 0x88,
        .writeCsr Csr.mstatus.address 8, .setInterruptLine .software true,
        .setPending 0xFFFF0080 true]
    b.IsDue .timer ∧ b.IsDue .software ∧ b.taken? = some .timer ∧
      b.step.1.hart.csrs.mepc = 4 := by
  intro b
  have htimer : b.IsDue .timer := by decide +kernel
  have hsoftware : b.IsDue .software := by decide +kernel
  obtain ⟨hexact, -, -⟩ := interrupt_delivery_exact (b := b) ⟨_, _, _, rfl⟩
  have htaken : b.taken? = some .timer := by
    rw [hexact.taken]
    exact ⟨htimer, fun j hj => absurd hj (Nat.not_lt_zero _)⟩
  refine ⟨htimer, hsoftware, htaken, ?_⟩
  rw [hexact.hartIfTaken .timer htaken]
  decide +kernel

end Board

end Rv32Sim
