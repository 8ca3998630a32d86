/-
  Rv32Sim.Proofs.Board.Runs

  Runs as numbers of cycles. A run is over at the first board that is halted or meets
  its condition (`isLeast_runLength`), so a run that stops on the way and is taken
  up again ends where it would have ended at once (`run_runUntil`). The budget decides
  when a run is over and nothing else: cycles do the same under another budget
  (`after_withBudget`).
-/
import Rv32Sim.Board.Run
import Rv32Sim.Proofs.Board.Reachable
import Mathlib.Algebra.Ring.Nat
import Mathlib.Order.Bounds.Basic

namespace Rv32Sim

namespace Board

/-! ## Cycles in a row -/

theorem after_add (b : Board) (m n : Nat) : b.after (m + n) = (b.after m).after n := by
  induction n with
  | zero => rfl
  | succ n ih => rw [← Nat.add_assoc, after, ih, after]

theorem after_succ (b : Board) (n : Nat) : b.after (n + 1) = b.step.1.after n := by
  rw [Nat.add_comm, after_add]
  rfl

/-- Only cycles move the counter and the status. -/
theorem perform_counters (b : Board) {op : Operation} (hop : op ≠ .step) :
    (b.perform op).cycles = b.cycles ∧ (b.perform op).status = b.status ∧
      (b.perform op).config = b.config := by
  cases op with
  | step => exact absurd rfl hop
  | setInterruptLine i level =>
    rw [perform, setInterruptLine]
    split <;> exact ⟨rfl, rfl, rfl⟩
  | _ => exact ⟨rfl, rfl, rfl⟩

/-! ## Where a run is over -/

/-- A run that asks `stop` is over at this board. -/
def Stops (stop : Board → Bool) (b : Board) : Prop := b.status = .halt ∨ stop b = true

theorem not_stops_iff (stop : Board → Bool) (b : Board) :
    ¬b.Stops stop ↔ b.status = .running ∧ stop b = false := by
  unfold Stops
  cases b.status <;> cases stop b <;> decide

theorem runUntil_of_stops {stop : Board → Bool} {b : Board} (h : b.Stops stop) :
    b.runUntil stop = b := by
  rw [runUntil, if_neg]
  intro hgoes
  exact (not_stops_iff stop b).2 hgoes h

theorem runUntil_of_not_stops {stop : Board → Bool} {b : Board} (h : ¬b.Stops stop) :
    b.runUntil stop = b.step.1.runUntil stop := by
  rw [runUntil, if_pos ((not_stops_iff stop b).1 h)]

/-- The number of cycles of a run. -/
def runLength (stop : Board → Bool) (b : Board) : Nat :=
  if b.status = .running ∧ stop b = false then runLength stop b.step.1 + 1 else 0
termination_by b.budget
decreasing_by exact budget_step_lt b (And.left ‹_›)

theorem runLength_of_stops {stop : Board → Bool} {b : Board} (h : b.Stops stop) :
    b.runLength stop = 0 := by
  rw [runLength, if_neg]
  intro hgoes
  exact (not_stops_iff stop b).2 hgoes h

theorem runLength_of_not_stops {stop : Board → Bool} {b : Board} (h : ¬b.Stops stop) :
    b.runLength stop = b.step.1.runLength stop + 1 := by
  rw [runLength, if_pos ((not_stops_iff stop b).1 h)]

theorem runUntil_eq_after_runLength (stop : Board → Bool) (b : Board) :
    b.runUntil stop = b.after (b.runLength stop) := by
  fun_induction runUntil stop b with
  | case1 b hgoes ih =>
    rw [runLength_of_not_stops ((not_stops_iff stop b).2 hgoes), after_succ, ih]
  | case2 b hover =>
    have hstops : b.Stops stop := not_not.1 (mt (not_stops_iff stop b).1 hover)
    rw [runLength_of_stops hstops]
    rfl

/-- A run has as many cycles as there are boards before the first where it is over. -/
theorem isLeast_runLength (stop : Board → Bool) (b : Board) :
    IsLeast {k | (b.after k).Stops stop} (b.runLength stop) := by
  fun_induction runLength stop b with
  | case1 b hgoes ih =>
    obtain ⟨hstops, hleast⟩ := ih
    have hnot : ¬b.Stops stop := (not_stops_iff stop b).2 hgoes
    constructor
    · show (b.after (_ + 1)).Stops stop
      rw [after_succ]
      exact hstops
    · -- the run is not over at its first board, and behind it the rest counts
      intro j hj
      cases j with
      | zero => exact absurd hj hnot
      | succ j =>
        have hlater : (b.step.1.after j).Stops stop := by
          rw [← after_succ]
          exact hj
        exact Nat.succ_le_succ (hleast hlater)
  | case2 b hover =>
    have hstops : b.Stops stop := not_not.1 (mt (not_stops_iff stop b).1 hover)
    exact ⟨hstops, fun j _ => Nat.zero_le j⟩

theorem exists_isLeast_runUntil (stop : Board → Bool) (b : Board) :
    ∃ k, IsLeast {k | (b.after k).Stops stop} k ∧ b.runUntil stop = b.after k :=
  ⟨b.runLength stop, isLeast_runLength stop b, runUntil_eq_after_runLength stop b⟩

theorem runUntil_eq_after {stop : Board → Bool} {b : Board} {n : Nat}
    (hn : IsLeast {k | (b.after k).Stops stop} n) : b.runUntil stop = b.after n := by
  obtain ⟨k, hk, hrun⟩ := exists_isLeast_runUntil stop b
  rw [hrun, hk.unique hn]

/-- A run that stops on the way may be taken up again. -/
theorem run_runUntil (stop : Board → Bool) (b : Board) : (b.runUntil stop).run = b.run := by
  fun_induction runUntil stop b with
  | case1 b hgoes ih =>
    have hnot : ¬b.Stops fun _ => false := (not_stops_iff _ b).2 ⟨hgoes.1, rfl⟩
    rw [ih, run, run, runUntil_of_not_stops hnot]
  | case2 b hover => rfl

/-! ## Counting cycles -/

/-- A board that a host can get to runs only below its budget. -/
theorem Reachable.cycles_lt {b : Board} (hb : b.Reachable) (hrunning : b.status = .running) :
    b.cycles < b.config.maxCycles := by
  revert hrunning
  refine hb.induction (motive := fun b => b.status = .running → b.cycles < b.config.maxCycles)
    ?_ ?_
  · intro rom config hrunning
    have hzero : config.maxCycles ≠ 0 := by
      intro hzero
      rw [new, if_pos hzero] at hrunning
      cases hrunning
    show (0 : Count) < config.maxCycles
    bv_omega
  · intro b op ih
    by_cases hop : op = .step
    · -- a cycle that brings the counter to the limit halts the board
      subst hop
      show b.step.1.status = .running → b.step.1.cycles < b.step.1.config.maxCycles
      rw [step_status, step_cycles, step_config]
      intro hrunning
      split at hrunning
      · cases hrunning
      · bv_omega
    · obtain ⟨hcycles, hstatus, hconfig⟩ := b.perform_counters hop
      rw [hcycles, hstatus, hconfig]
      exact ih

/-- The counter does not wrap around while a board is running. -/
theorem toNat_cycles_after {b : Board} (hb : b.Reachable) {n : Nat}
    (hrunning : ∀ j < n, (b.after j).status = .running) :
    (b.after n).cycles.toNat = b.cycles.toNat + n := by
  induction n with
  | zero => rfl
  | succ n ih =>
    have hcount := ih fun j hj => hrunning j (Nat.lt_succ_of_lt hj)
    have hlt := (hb.after n).cycles_lt (hrunning n (Nat.lt_succ_self n))
    rw [after, step_cycles]
    bv_omega

/-- A run tells how many cycles it executed. -/
theorem toNat_cyclesTo_runUntil {b : Board} (hb : b.Reachable) {stop : Board → Bool} {n : Nat}
    (hn : IsLeast {k | (b.after k).Stops stop} n) :
    (b.cyclesTo (b.runUntil stop)).toNat = n := by
  have hcount : (b.after n).cycles.toNat = b.cycles.toNat + n := by
    apply toNat_cycles_after hb
    intro j hj
    have hnot : ¬(b.after j).Stops stop := fun hstops => absurd (hn.2 hstops) (by omega)
    exact ((not_stops_iff stop _).1 hnot).1
  rw [runUntil_eq_after hn, cyclesTo]
  bv_omega

/-! ## Inside the budget -/

/-- A host can get to this board without more cycles than the budget has. -/
def WithinBudget (b : Board) : Prop :=
  ∃ (rom : Rom) (config : Config) (ops : List Operation),
    ops.count .step ≤ config.maxCycles.toNat ∧ b = (Board.new rom config).performAll ops

theorem WithinBudget.reachable {b : Board} (hb : b.WithinBudget) : b.Reachable := by
  obtain ⟨rom, config, ops, -, hops⟩ := hb
  exact ⟨rom, config, ops, hops⟩

/-- The counter is inside the budget, and the board is halted at its end only. -/
structure OnBudget (b : Board) : Prop where
  le : b.cycles ≤ b.config.maxCycles
  halt_iff : b.status = .halt ↔ b.cycles = b.config.maxCycles

/-- The cycles that the budget leaves. -/
def left (b : Board) : Nat := b.config.maxCycles.toNat - b.cycles.toNat

theorem onBudget_new (rom : Rom) (config : Config) : (Board.new rom config).OnBudget := by
  constructor
  · show (0 : Count) ≤ config.maxCycles
    bv_omega
  · show (if config.maxCycles = 0 then Status.halt else .running) = .halt ↔
      (0 : Count) = config.maxCycles
    by_cases hzero : config.maxCycles = 0
    · rw [if_pos hzero, hzero]
      exact ⟨fun _ => rfl, fun _ => rfl⟩
    · rw [if_neg hzero]
      exact ⟨nofun, fun h => absurd h.symm hzero⟩

namespace OnBudget

theorem running {b : Board} (hb : b.OnBudget) (hlt : 0 < b.left) : b.status = .running := by
  cases hstatus : b.status with
  | running => rfl
  | halt =>
    have hend := hb.halt_iff.1 hstatus
    rw [left, hend, Nat.sub_self] at hlt
    exact absurd hlt (Nat.lt_irrefl 0)

theorem halted {b : Board} (hb : b.OnBudget) (hzero : b.left = 0) : b.status = .halt := by
  have hle := hb.le
  have hend : b.cycles = b.config.maxCycles := by
    unfold left at hzero
    bv_omega
  exact hb.halt_iff.2 hend

theorem step {b : Board} (hb : b.OnBudget) (hlt : 0 < b.left) :
    b.step.1.OnBudget ∧ b.step.1.left + 1 = b.left := by
  have hrunning := hb.running hlt
  have hle := hb.le
  unfold left at hlt
  refine ⟨⟨?_, ?_⟩, ?_⟩
  · rw [step_cycles, step_config]
    bv_omega
  · rw [step_status, step_cycles, step_config, hrunning]
    by_cases hend : b.config.maxCycles ≤ b.cycles + 1
    · rw [if_pos hend]
      refine ⟨fun _ => ?_, fun _ => rfl⟩
      bv_omega
    · rw [if_neg hend]
      refine ⟨nofun, fun heq => ?_⟩
      bv_omega
  · rw [left, left, step_cycles, step_config]
    bv_omega

theorem performAll {b : Board} (hb : b.OnBudget) {ops : List Operation}
    (hcount : ops.count .step ≤ b.left) : (b.performAll ops).OnBudget := by
  induction ops generalizing b with
  | nil => exact hb
  | cons op ops ih =>
    by_cases hop : op = .step
    · -- a cycle takes one from those to come and one from those that are left
      subst hop
      rw [List.count_cons_self] at hcount
      obtain ⟨hstep, hleft⟩ := hb.step (by omega)
      have hrest : ops.count .step ≤ b.step.1.left := by omega
      exact ih hstep hrest
    · obtain ⟨hcycles, hstatus, hconfig⟩ := b.perform_counters hop
      rw [List.count_cons_of_ne hop] at hcount
      refine ih ⟨?_, ?_⟩ ?_
      · rw [hcycles, hconfig]
        exact hb.le
      · rw [hcycles, hstatus, hconfig]
        exact hb.halt_iff
      · rw [left, hcycles, hconfig]
        exact hcount

theorem after {b : Board} (hb : b.OnBudget) {n : Nat} (hn : n ≤ b.left) :
    (b.after n).OnBudget ∧ (b.after n).left + n = b.left := by
  induction n with
  | zero => exact ⟨hb, rfl⟩
  | succ n ih =>
    obtain ⟨hafter, hleft⟩ := ih (by omega)
    obtain ⟨hstep, hone⟩ := hafter.step (by omega)
    refine ⟨hstep, ?_⟩
    show (b.after n).step.1.left + (n + 1) = b.left
    omega

/-- The end of the budget is where the board halts. -/
theorem isLeast_halt {b : Board} (hb : b.OnBudget) :
    IsLeast {k | (b.after k).Stops fun _ => false} b.left := by
  constructor
  · obtain ⟨hend, hleft⟩ := hb.after (Nat.le_refl b.left)
    exact Or.inl (hend.halted (by omega))
  · -- before the end some cycle is left, so the board is running there
    intro j hj
    by_contra hlt
    have hj' : j ≤ b.left := by omega
    obtain ⟨hafter, hleft⟩ := hb.after hj'
    have hrunning := hafter.running (by omega)
    have hnot : ¬(b.after j).Stops fun _ => false := (not_stops_iff _ _).2 ⟨hrunning, rfl⟩
    exact hnot hj

theorem run_eq_after {b : Board} (hb : b.OnBudget) : b.run = b.after b.left :=
  runUntil_eq_after hb.isLeast_halt

/-- A run that asks for more than the end of the budget does not go further. -/
theorem exists_runUntil {b : Board} (hb : b.OnBudget) (stop : Board → Bool) :
    ∃ k ≤ b.left, IsLeast {k | (b.after k).Stops stop} k ∧ b.runUntil stop = b.after k := by
  obtain ⟨k, hk, hrun⟩ := exists_isLeast_runUntil stop b
  have hend : (b.after b.left).Stops stop := by
    rcases hb.isLeast_halt.1 with hhalt | hfalse
    · exact Or.inl hhalt
    · cases hfalse
  exact ⟨k, hk.2 hend, hk, hrun⟩

end OnBudget

theorem WithinBudget.onBudget {b : Board} (hb : b.WithinBudget) : b.OnBudget := by
  obtain ⟨rom, config, ops, hcount, rfl⟩ := hb
  exact (onBudget_new rom config).performAll hcount

/-! ## Runs in pieces -/

/-- Run until each of some conditions in turn and then until the budget is used up, with
    the numbers of cycles that the runs tell. -/
def runPieces (b : Board) : List (Board → Bool) → Board × List Count
  | [] => (b.run, [b.cyclesTo b.run])
  | stop :: stops =>
    let later := b.runUntil stop
    ((later.runPieces stops).1, b.cyclesTo later :: (later.runPieces stops).2)

theorem runPieces_fst (b : Board) (stops : List (Board → Bool)) :
    (b.runPieces stops).1 = b.run := by
  induction stops generalizing b with
  | nil => rfl
  | cons stop stops ih =>
    rw [runPieces, ih, run_runUntil]

theorem sum_runPieces {b : Board} (hb : b.Reachable) (hbudget : b.OnBudget)
    (stops : List (Board → Bool)) :
    ((b.runPieces stops).2.map BitVec.toNat).sum = b.left := by
  induction stops generalizing b with
  | nil =>
    have hcount := toNat_cyclesTo_runUntil hb hbudget.isLeast_halt
    rw [runPieces, List.map_singleton, List.sum_singleton]
    exact hcount
  | cons stop stops ih =>
    -- the first run takes `k` of the cycles that are left, and the others take the rest
    obtain ⟨k, hk, hleast, hrun⟩ := hbudget.exists_runUntil stop
    have hcount := toNat_cyclesTo_runUntil hb hleast
    obtain ⟨hafter, hleft⟩ := hbudget.after hk
    have hrest := ih (hb.after k) hafter
    rw [runPieces, List.map_cons, List.sum_cons, hcount, hrun, hrest]
    omega

/-! ## Cycle by cycle -/

theorem step?_eq_some_iff {b later : Board} {record : StepRecord} :
    b.step? = some (later, record) ↔ b.status = .running ∧ b.step = (later, record) := by
  unfold step?
  cases b.status with
  | running => exact ⟨fun h => ⟨rfl, Option.some.inj h⟩, fun h => congrArg some h.2⟩
  | halt => exact ⟨nofun, nofun⟩

/-- Ask for single cycles until none is left, and collect what they did. -/
def drain (b : Board) : Board × List StepRecord :=
  match _h : b.step? with
  | none => (b, [])
  | some (later, record) => (later.drain.1, record :: later.drain.2)
termination_by b.budget
decreasing_by
  all_goals
    obtain ⟨hrunning, hstep⟩ := step?_eq_some_iff.1 _h
    have hlt := budget_step_lt b hrunning
    rw [hstep] at hlt
    exact hlt

theorem drain_of_halt {b : Board} (h : b.status = .halt) : b.drain = (b, []) := by
  have hnone : b.step? = none := by rw [step?, if_pos h]
  rw [drain]
  split
  next => rfl
  next hsome =>
    rw [hnone] at hsome
    cases hsome

theorem drain_of_running {b : Board} (h : b.status = .running) :
    b.drain = (b.step.1.drain.1, b.step.2 :: b.step.1.drain.2) := by
  have hsome : b.step? = some b.step := by
    rw [step?, if_neg]
    rw [h]
    exact nofun
  rw [drain]
  split
  next hnone =>
    rw [hsome] at hnone
    cases hnone
  next hsome' =>
    rw [hsome] at hsome'
    cases hsome'
    rfl

/-- Single cycles lead to where a run leads. -/
theorem drain_eq {b : Board} (hb : b.OnBudget) :
    b.drain.1 = b.run ∧ b.drain.2.length = b.left := by
  rw [hb.run_eq_after]
  -- induction on the cycles that are left; a cycle keeps the board on its budget
  generalize hn : b.left = n
  induction n generalizing b with
  | zero =>
    rw [drain_of_halt (hb.halted hn)]
    exact ⟨rfl, rfl⟩
  | succ n ih =>
    obtain ⟨hstep, hleft⟩ := hb.step (by omega)
    obtain ⟨hlast, hlength⟩ := ih hstep (by omega)
    rw [drain_of_running (hb.running (by omega)), after_succ]
    exact ⟨hlast, congrArg Nat.succ hlength⟩

/-! ## Another budget -/

/-- The board with another budget and another status. -/
def withBudget (b : Board) (maxCycles : Count) (status : Status) : Board :=
  { b with config := { b.config with maxCycles }, status }

theorem step_withBudget (b : Board) (maxCycles : Count) (status : Status) :
    (b.withBudget maxCycles status).step.1 =
      b.step.1.withBudget maxCycles
        (if maxCycles ≤ b.cycles + 1 then .halt else status) := by
  have hexecuted : (b.withBudget maxCycles status).executed = b.executed := rfl
  unfold step
  rw [hexecuted]
  rfl

/-- What cycles do depends on the budget in the status alone. -/
theorem after_withBudget (b : Board) (maxCycles : Count) (status : Status) (n : Nat) :
    ∃ status', (b.withBudget maxCycles status).after n =
      (b.after n).withBudget maxCycles status' := by
  induction n with
  | zero => exact ⟨status, rfl⟩
  | succ n ih =>
    obtain ⟨status', hafter⟩ := ih
    rw [after, hafter, after]
    exact ⟨_, step_withBudget (b.after n) maxCycles status'⟩

/-- The run of a new board under a budget of `n` cycles, seen from a new board under
    another budget. -/
theorem after_new_eq_withBudget_run (rom : Rom) (config : Config) (n m : Count) :
    ∃ status, (Board.new rom { config with maxCycles := m }).after n.toNat =
      (Board.new rom { config with maxCycles := n }).run.withBudget m status := by
  have hbudget := onBudget_new rom { config with maxCycles := n }
  have hleft : (Board.new rom { config with maxCycles := n }).left = n.toNat := Nat.sub_zero _
  rw [hbudget.run_eq_after, hleft]
  exact after_withBudget (Board.new rom { config with maxCycles := n }) m _ n.toNat

/-- **Runs in pieces.** On a board that a host can get to, a run is over at the first of
    the successive boards that is halted or meets its condition, and tells how many cycles
    that took. Inside the budget any number of runs followed by a run to its end, and
    single cycles until none is left, lead to where one run leads, in as many cycles as the
    budget leaves. A halted board stays as it is. A smaller budget ends a run earlier on
    the same way. -/
theorem run_in_pieces :
    (∀ b : Board, b.Reachable → ∀ stop : Board → Bool, ∃ k : Nat,
      IsLeast {k | (b.after k).status = .halt ∨ stop (b.after k) = true} k ∧
      b.runUntil stop = b.after k ∧ (b.cyclesTo (b.runUntil stop)).toNat = k) ∧
    (∀ b : Board, b.WithinBudget → ∀ stops : List (Board → Bool),
      let left := b.config.maxCycles.toNat - b.cycles.toNat
      (b.runPieces stops).1 = b.run ∧
      ((b.runPieces stops).2.map BitVec.toNat).sum = left ∧
      b.drain.1 = b.run ∧ b.drain.2.length = left ∧ b.drain.1.step? = none) ∧
    (∀ b : Board, b.status = .halt →
      b.run = b ∧ (∀ stop, b.runUntil stop = b) ∧ b.step? = none ∧ b.drain = (b, [])) ∧
    (∀ (rom : Rom) (config : Config) (n m : Count), n ≤ m →
      ∃ status, (Board.new rom { config with maxCycles := m }).after n.toNat =
        (Board.new rom { config with maxCycles := n }).run.withBudget m status) := by
  refine ⟨?_, ?_, ?_, ?_⟩
  · intro b hb stop
    obtain ⟨k, hk, hrun⟩ := exists_isLeast_runUntil stop b
    exact ⟨k, hk, hrun, toNat_cyclesTo_runUntil hb hk⟩
  · intro b hb stops left
    have hbudget := hb.onBudget
    obtain ⟨hlast, hlength⟩ := drain_eq hbudget
    have hhalt : b.run.status = .halt := by
      rw [hbudget.run_eq_after]
      rcases hbudget.isLeast_halt.1 with hhalt | hfalse
      · exact hhalt
      · cases hfalse
    refine ⟨b.runPieces_fst stops, sum_runPieces hb.reachable hbudget stops, hlast, hlength, ?_⟩
    rw [hlast, step?, if_pos hhalt]
  · intro b hhalt
    have hstops (stop : Board → Bool) : b.Stops stop := Or.inl hhalt
    refine ⟨runUntil_of_stops (hstops _), fun stop => runUntil_of_stops (hstops stop), ?_,
      drain_of_halt hhalt⟩
    rw [step?, if_pos hhalt]
  · intro rom config n m _
    exact after_new_eq_withBudget_run rom config n m

/-- A board without content that has four of its five cycles left: a run to address 12
    takes two of them, and asking for it again takes none. -/
theorem run_in_pieces_of_five :
    let config := { Config.standard with maxCycles := 5 }
    let b := (Board.new .empty config).performAll [.step]
    let stop (b : Board) : Bool := b.hart.pc == 12
    b.runUntil stop = b.after 2 ∧
    (b.runPieces [stop, stop]).1 = b.run ∧
    ((b.runPieces [stop, stop]).2.map BitVec.toNat).sum = 4 ∧
    b.drain.2.length = 4 ∧
    (Board.new .empty { config with maxCycles := 0 }).run =
      Board.new .empty { config with maxCycles := 0 } ∧
    ∃ status, (Board.new .empty { config with maxCycles := 8 }).after 5 =
      (Board.new .empty config).run.withBudget 8 status := by
  intro config b stop
  have hbudget : b.WithinBudget := ⟨.empty, config, [.step], by decide, rfl⟩
  have hleft : b.config.maxCycles.toNat - b.cycles.toNat = 4 := by decide +kernel
  obtain ⟨runs, pieces, halted, budgets⟩ := run_in_pieces
  obtain ⟨k, hk, hrun, -⟩ := runs b hbudget.reachable stop
  obtain ⟨hlast, hsum, -, hlength, -⟩ := pieces b hbudget [stop, stop]
  have htwo : IsLeast {k | (b.after k).status = .halt ∨ stop (b.after k) = true} 2 := by
    refine ⟨Or.inr (by decide +kernel), fun j hj => ?_⟩
    by_contra hlt
    have hnot : ∀ j < 2, ¬((b.after j).status = .halt ∨ stop (b.after j) = true) := by
      decide +kernel
    exact hnot j (by omega) hj
  rw [hk.unique htwo] at hrun
  exact ⟨hrun, hlast, hsum.trans hleft, hlength.trans hleft, (halted _ rfl).1,
    budgets .empty config 5 8 (by decide)⟩

end Board

end Rv32Sim
