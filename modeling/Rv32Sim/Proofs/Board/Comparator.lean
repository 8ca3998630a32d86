/-
  Rv32Sim.Proofs.Board.Comparator

  The timer while its comparator is left alone. Only a store to its address changes the
  comparator, be it the program's or the host's, so until then the timer is a new timer
  that has ticked once for every cycle (`timer_serveAll`). The comparator starts at the
  greatest word and the counter has two words, so the line is quiet for as many cycles as
  that and not for ever (`timer_silent_iff`, `timer_taken_of_idle`).
-/
import Rv32Sim.Proofs.Board.Counters
import Rv32Sim.Proofs.Board.HostLines
import Rv32Sim.Proofs.Hart.Fetch

namespace Rv32Sim

/-! ## Stores -/

/-- The address that a word stores to, if it is a store. -/
def Hart.storeTarget? (h : Hart) (w : Word) : Option Word :=
  match w.access? with
  | some (.store _) => some (h.storeAddress w)
  | _ => none

/-- A word writes to its target, or has none and leaves the address space alone. -/
theorem Hart.storeTarget?_cases (h : Hart) (w : Word) :
    (∃ size, h.storeTarget? w = some (h.storeAddress w) ∧
      (h.dispatch w).1.bus = h.bus.write (h.storeAddress w) (h.regs.get w.rs2) size) ∨
    (h.storeTarget? w = none ∧ (h.dispatch w).1.bus = h.bus) := by
  by_cases hstore : ∃ size, w.access? = some (.store size)
  · obtain ⟨size, haccess⟩ := hstore
    refine Or.inl ⟨size, ?_, ?_⟩
    · rw [storeTarget?, haccess]
    · rw [dispatch_bus, haccess]
  · refine Or.inr ⟨?_, ?_⟩
    · unfold storeTarget?
      split
      next size haccess => exact absurd ⟨size, haccess⟩ hstore
      next => rfl
    · rw [dispatch_bus]
      split
      next size haccess => exact absurd ⟨size, haccess⟩ hstore
      next => rfl

theorem Hart.timer_dispatch {h : Hart} {w : Word} (hw : h.storeTarget? w ≠ some Bus.mtimecmp) :
    (h.dispatch w).1.bus.timer = h.bus.timer := by
  rcases h.storeTarget?_cases w with ⟨size, htarget, hbus⟩ | ⟨-, hbus⟩
  · rw [htarget] at hw
    rw [hbus, Bus.timer_write, if_neg fun ha => hw (congrArg some ha)]
  · rw [hbus]

namespace Board

/-- The address that an entry of a history stores to, if it stores. -/
def storedTo? : Board × Request → Option Word
  | (b, .step) => b.hart.storeTarget? b.step.2.raw
  | (_, .writeMem a _ _) => some a
  | _ => none

/-! ## The timer -/

theorem timer_step {b : Board} (hstore : storedTo? (b, .step) ≠ some Bus.mtimecmp) :
    b.step.1.hart.bus.timer = b.hart.bus.timer.tick := by
  rw [step_bus]
  exact Hart.timer_dispatch (h := b.hart.tick) hstore

/-- Between cycles only a store to the comparator moves the timer. -/
theorem timer_serve_of_ne {b : Board} {r : Request} (hr : r ≠ .step)
    (hstore : storedTo? (b, r) ≠ some Bus.mtimecmp) :
    (b.serve r).1.hart.bus.timer = b.hart.bus.timer := by
  cases r with
  | step => exact absurd rfl hr
  | setInterruptLine i level =>
    show (b.setInterruptLine i level).hart.bus.timer = _
    unfold setInterruptLine
    split <;> rfl
  | writeCsr a w => rfl
  | writeMem a data size =>
    have ha : a ≠ Bus.mtimecmp := fun ha => hstore (congrArg some ha)
    show (b.hart.bus.write a data size).timer = _
    rw [Bus.timer_write, if_neg ha]
  | readMem a size => rfl

/-- While nothing stores to the comparator, the timer ticks once for every cycle. -/
theorem timer_serveAll {b : Board} {rs : List Request}
    (hstores : ∀ v ∈ b.history rs, storedTo? v ≠ some Bus.mtimecmp) :
    (b.serveAll rs).1.hart.bus.timer = b.hart.bus.timer.advance (rs.count .step) := by
  induction rs generalizing b with
  | nil => exact (Timer.advance_zero _).symm
  | cons r rs ih =>
    rw [history, List.forall_mem_cons] at hstores
    obtain ⟨hfirst, hrest⟩ := hstores
    have hlast : ((b.serve r).1.serveAll rs).1.hart.bus.timer = _ := ih hrest
    show ((b.serve r).1.serveAll rs).1.hart.bus.timer = _
    by_cases hr : r = .step
    · -- the tick of this cycle comes before those of the others
      subst hr
      have hnext : (b.serve .step).1.hart.bus.timer = b.hart.bus.timer.tick := timer_step hfirst
      rw [hlast, hnext, List.count_cons_self, Timer.advance_succ]
    · rw [hlast, timer_serve_of_ne hr hfirst, List.count_cons_of_ne hr]

/-! ## The line -/

/-- The level of the timer's line behind a cycle that does not take its interrupt. -/
theorem lineUp_timer_step {b : Board} (hm : b.hart.csrs.Mirrored)
    (htaken : b.taken? ≠ some .timer) :
    b.step.1.lineUp .timer = b.executed.1.bus.timer.isPending := by
  have hsynced (w : Word) (level : Bool) : (w.assignBit 7 level).getLsbD 7 = level := by
    rw [Word.getLsbD_assignBit _ (by decide), if_pos rfl]
  cases hother : b.taken? with
  | none =>
    rw [lineUp, step_hart_of_not_taken hother]
    exact hsynced _ _
  | some i =>
    -- the interrupt that is taken takes its own line down and no other
    have hcode : Interrupt.timer.code ≠ i.code := by
      intro hcode
      rw [hother, Interrupt.code_inj.1 hcode] at htaken
      exact htaken rfl
    rw [lineUp, step_hart_of_taken hm hother, Hart.interrupted,
      Word.getLsbD_assignBit _ i.code_lt, if_neg hcode]
    exact hsynced _ _

/-- A cycle that finds the timer's line up leaves it up or takes its interrupt. -/
theorem timer_signals_iff {b : Board} (hm : b.hart.csrs.Mirrored) :
    b.step.1.lineUp .timer = true ∨ b.taken? = some .timer ↔ b.IsUp .timer := by
  have hlevel : b.executed.1.bus.timer.isPending = true ↔ b.IsUp .timer := decide_eq_true_iff
  by_cases htaken : b.taken? = some .timer
  · have hdue : b.IsDue .timer := ((taken?_eq_some_iff hm _).1 htaken).1
    exact ⟨fun _ => hdue.isUp, fun _ => Or.inr htaken⟩
  · rw [lineUp_timer_step hm htaken, hlevel, or_iff_left htaken]

/-- A new timer that is left alone has its line up once it has ticked as often as its
    comparator says, modulo the size of its counter. -/
theorem isPending_advance_initial (n : Nat) :
    (Timer.initial.advance n).isPending = true ↔ 2 ^ 32 - 1 ≤ n % 2 ^ 64 := by
  have hmtime : (Timer.initial.advance n).mtime.toNat = n % 2 ^ 64 := by
    simp [Timer.advance, Timer.initial]
  have hmtimecmp : (Timer.initial.advance n).mtimecmp.toNat = 2 ^ 32 - 1 := by
    simp [Timer.advance, Timer.initial]
  rw [Timer.isPending, hmtime, hmtimecmp, decide_eq_true_iff]

/-- While nothing stores to the comparator, the number of a cycle decides whether it finds
    the line up. -/
theorem isUp_timer_iff {rom : Rom} {config : Config} {rs : List Request}
    (hstores : ∀ v ∈ (Board.new rom config).history (rs ++ [.step]),
      storedTo? v ≠ some Bus.mtimecmp) :
    ((Board.new rom config).serveAll rs).1.IsUp .timer ↔
      2 ^ 32 - 1 ≤ (rs.count .step + 1) % 2 ^ 64 := by
  have htimer := timer_serveAll hstores
  rw [serveAll_append, List.count_append] at htimer
  have hexecuted : ((Board.new rom config).serveAll rs).1.executed.1.bus.timer =
      Timer.initial.advance (rs.count .step + 1) := by
    rw [← step_bus]
    exact htimer
  rw [← isPending_advance_initial, ← hexecuted]
  exact decide_eq_true_iff.symm

/-- **An unprogrammed comparator.** While neither the program nor the host stores to the
    comparator, whatever else they do, a cycle leaves the timer's line down and takes no
    timer interrupt exactly if its number is below the greatest word, modulo the size of
    the counter. -/
theorem timer_silent_iff (rom : Rom) (config : Config) (rs : List Request)
    (hstores : ∀ v ∈ (Board.new rom config).history (rs ++ [.step]),
      storedTo? v ≠ some Bus.mtimecmp) :
    let b := ((Board.new rom config).serveAll rs).1
    b.step.1.lineUp .timer = false ∧ b.taken? ≠ some .timer ↔
      (rs.count .step + 1) % 2 ^ 64 < 2 ^ 32 - 1 := by
  intro b
  have hb : b.Reachable := (reachable_new rom config).serveAll rs
  have hsignals := timer_signals_iff hb.mirrored
  rw [isUp_timer_iff hstores] at hsignals
  rw [← Nat.not_le, ← hsignals, not_or, Bool.not_eq_true]

/-- A program that stores to the counter instead, with the interrupt enabled. -/
theorem timer_silent_iff_of_three :
    let rom := Rom.ofWords [0x200002B7, 0x0052A023]
    let rs : List Request :=
      [.writeCsr Csr.mie.address 0x80, .step, .step, .writeCsr Csr.mstatus.address 8]
    let b := ((Board.new rom .standard).serveAll rs).1
    (∀ v ∈ (Board.new rom .standard).history (rs ++ [.step]),
      storedTo? v ≠ some Bus.mtimecmp) ∧
    b.step.1.lineUp .timer = false ∧ b.taken? ≠ some .timer := by
  intro rom rs b
  have hstores : ∀ v ∈ (Board.new rom .standard).history (rs ++ [.step]),
      storedTo? v ≠ some Bus.mtimecmp := by
    decide +kernel
  exact ⟨hstores, (timer_silent_iff rom .standard rs hstores).2 (by decide)⟩

/-! ## A board without a program -/

/-- There is nothing to fetch anywhere. -/
def Blank (b : Board) : Prop := ∀ a, b.hart.bus.hasContent a = false

theorem blank_new (config : Config) : (Board.new .empty config).Blank := fun _ => rfl

namespace Blank

variable {b : Board}

/-- With nothing to fetch a cycle changes no more than a no-op does. -/
theorem executed (hb : b.Blank) :
    b.executed.1.csrs = b.hart.csrs ∧ b.executed.1.bus = b.hart.bus.tick ∧
      b.executed.2.exception = none := by
  have hidle := Hart.dispatch_nopWord b.hart.tick
  have hfetch : b.hart.tick.fetch = nopWord := Hart.fetch_of_blank fun i _ => hb _
  rw [← hfetch] at hidle
  exact hidle

theorem step (hb : b.Blank) : b.step.1.Blank := by
  intro a
  rw [step_bus, hb.executed.2.1]
  exact hb a

theorem storedTo?_step (hb : b.Blank) : storedTo? (b, .step) = none := by
  have hfetch : b.step.2.raw = nopWord := Hart.fetch_of_blank (h := b.hart.tick) fun i _ => hb _
  rw [storedTo?, hfetch]
  rfl

theorem serveAll_replicate (hb : b.Blank) (n : Nat) :
    (b.serveAll (List.replicate n .step)).1.Blank ∧
      ∀ v ∈ b.history (List.replicate n .step), storedTo? v = none := by
  induction n generalizing b with
  | zero => exact ⟨hb, List.forall_mem_nil _⟩
  | succ n ih =>
    obtain ⟨hlast, hstores⟩ := ih hb.step
    rw [List.replicate_succ, history, List.forall_mem_cons]
    exact ⟨hlast, hb.storedTo?_step, hstores⟩

/-- With nothing to fetch, the timer's interrupt is taken if it is enabled and its line up. -/
theorem taken?_timer (hb : b.Blank) (hm : b.hart.csrs.Mirrored)
    (henable : b.hart.csrs.mstatus.getLsbD 3 = true)
    (hmie : b.hart.csrs.mie.getLsbD Interrupt.timer.code = true) (hup : b.IsUp .timer) :
    b.taken? = some .timer := by
  obtain ⟨hcsrs, -, hretired⟩ := hb.executed
  rw [← hcsrs] at henable hmie
  rw [taken?_eq_some_iff hm]
  exact ⟨⟨hretired, henable, hmie, hup⟩, fun j hj => absurd hj (Nat.not_lt_zero _)⟩

end Blank

/-- The requests of a host that waits for `n` cycles and then enables the interrupt of the
    timer. -/
def waitAndEnable (n : Nat) : List Request :=
  List.replicate n .step ++ [.writeCsr Csr.mie.address 0x80, .writeCsr Csr.mstatus.address 8]

theorem count_step_waitAndEnable (n : Nat) : (waitAndEnable n).count .step = n := by
  rw [waitAndEnable, List.count_append, List.count_replicate_self]
  rfl

theorem taken?_waitAndEnable (config : Config) (n : Nat) :
    (∀ v ∈ (Board.new .empty config).history (waitAndEnable n ++ [.step]),
      storedTo? v ≠ some Bus.mtimecmp) ∧
    (2 ^ 32 - 1 ≤ (n + 1) % 2 ^ 64 →
      ((Board.new .empty config).serveAll (waitAndEnable n)).1.taken? = some .timer) := by
  obtain ⟨hblank, hstores⟩ := (blank_new config).serveAll_replicate n
  let idle := ((Board.new .empty config).serveAll (List.replicate n .step)).1
  let ready := (idle.serveAll
    [.writeCsr Csr.mie.address 0x80, .writeCsr Csr.mstatus.address 8]).1
  have hready : ((Board.new .empty config).serveAll (waitAndEnable n)).1 = ready :=
    serveAll_append _ _ _
  -- what the host writes at the end brings nothing to fetch
  have hquiet : ready.Blank := hblank
  have hnone : ∀ v ∈ (Board.new .empty config).history (waitAndEnable n ++ [.step]),
      storedTo? v ≠ some Bus.mtimecmp := by
    intro v hv
    rw [history_append, List.mem_append, waitAndEnable, history_append, List.mem_append] at hv
    rcases hv with (hwait | hwrite) | hlast
    · rw [hstores v hwait]
      exact (Option.some_ne_none _).symm
    · simp only [history, List.mem_cons, List.not_mem_nil, or_false] at hwrite
      rcases hwrite with rfl | rfl <;> exact (Option.some_ne_none _).symm
    · obtain rfl : v = (ready, .step) := by
        rw [← hready]
        exact List.mem_singleton.1 hlast
      rw [hquiet.storedTo?_step]
      exact (Option.some_ne_none _).symm
  refine ⟨hnone, fun hn => ?_⟩
  have hm := ((reachable_new .empty config).serveAll (waitAndEnable n)).mirrored
  have hup := (isUp_timer_iff hnone).2 (by rw [count_step_waitAndEnable]; exact hn)
  rw [hready] at hm hup ⊢
  have hmstatus : ready.hart.csrs.mstatus = 8 &&& BitVec.allOnes 32 := rfl
  have hmie : ready.hart.csrs.mie = 0x80 &&& BitVec.allOnes 32 := rfl
  exact hquiet.taken?_timer hm (by rw [hmstatus]; decide) (by rw [hmie]; decide) hup

/-- The comparator does not stand for never: a host that waits long enough on a board
    without a program, and then enables the interrupt of the timer, gets one although
    nothing ever stored to the comparator. -/
theorem timer_taken_of_idle :
    let start := Board.new .empty { Config.standard with maxCycles := 0x100000000 }
    let rs := waitAndEnable (2 ^ 32 - 2)
    (∀ v ∈ start.history (rs ++ [.step]), storedTo? v ≠ some Bus.mtimecmp) ∧
      (start.serveAll rs).1.taken? = some .timer := by
  intro start rs
  obtain ⟨hstores, htaken⟩ :=
    taken?_waitAndEnable { Config.standard with maxCycles := 0x100000000 } (2 ^ 32 - 2)
  exact ⟨hstores, htaken (by decide)⟩

end Board

end Rv32Sim
