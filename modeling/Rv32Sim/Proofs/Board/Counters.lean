/-
  Rv32Sim.Proofs.Board.Counters

  The three counters of a board: the timer's, the cycles and the instructions. Every
  cycle moves each of them by one, whatever its instruction does, and nothing else moves
  any; so after any calls of a host all three tell the number of cycles
  (`Counted.callAll`), and a program that loads from the timer's counter reads that number
  (`get_rd_step`). Stores to the counter go to the memory behind it.
-/
import Rv32Sim.Proofs.Board.Registers
import Rv32Sim.Proofs.Hart.Access
import Rv32Sim.Proofs.Memory.Backing
import Mathlib.Algebra.Ring.Nat

namespace Rv32Sim

/-- A counter that tells `n` goes on to tell `n + 1`. -/
theorem Count.ofNat_succ (n : Nat) : (BitVec.ofNat 64 n : Count) + 1 = BitVec.ofNat 64 (n + 1) :=
  (BitVec.ofNat_add n 1).symm

/-! ## The timer's counter -/

/-- No write reaches the timer's counter. -/
theorem Bus.mtime_write (bus : Bus) (a data : Word) (size : AccessSize) :
    (bus.write a data size).timer.mtime = bus.timer.mtime := by
  rw [timer_write]
  split <;> rfl

theorem Bus.read_mtime (bus : Bus) : bus.read mtime .word = bus.timer.mtime.setWidth 32 := by
  have hregister : bus.deviceRead? mtime = some (bus.timer.mtime.setWidth 32) := by
    rw [deviceRead?_eq, if_neg (by decide), if_pos rfl]
  rw [read, hregister]
  rfl

theorem Hart.mtime_dispatch (h : Hart) (w : Word) :
    (h.dispatch w).1.bus.timer.mtime = h.bus.timer.mtime := by
  rw [dispatch_bus]
  split
  next => exact Bus.mtime_write _ _ _ _
  next => rfl

namespace Board

/-! ## One cycle -/

/-- Delivery leaves the address space as the instruction left it. -/
theorem step_bus (b : Board) : b.step.1.hart.bus = b.executed.1.bus := by
  show (delivered _ _).bus = _
  -- entry to a trap moves the pc, a line and the CSRs
  unfold delivered Hart.takeInterrupt
  split
  · split <;> rfl
  · rfl

theorem step_mtime (b : Board) :
    b.step.1.hart.bus.timer.mtime = b.hart.bus.timer.mtime + 1 := by
  rw [step_bus]
  exact Hart.mtime_dispatch b.hart.tick b.hart.tick.fetch

theorem step_instret (b : Board) : b.step.1.instret = b.instret + 1 := rfl

/-- A word load from the timer's counter brings the number of the cycle. -/
theorem get_rd_step {b : Board} (hload : b.step.2.raw.access? = some (.load .word false))
    (ha : b.hart.loadAddress b.step.2.raw = Bus.mtime) (hrd : b.step.2.raw.rd ≠ Reg.zero) :
    b.step.1.hart.regs.get b.step.2.raw.rd = (b.hart.bus.timer.mtime + 1).setWidth 32 := by
  have heffect := b.hart.tick.effect_load hload
  have haddress : b.hart.tick.loadAddress b.step.2.raw = Bus.mtime := ha
  -- the timer has ticked by the time of the load
  have hvalue : b.hart.tick.loaded Bus.mtime .word false =
      (b.hart.bus.timer.mtime + 1).setWidth 32 := b.hart.tick.bus.read_mtime
  rw [haddress, hvalue] at heffect
  have hregs : b.executed.1.regs =
      (b.hart.regs.set b.step.2.raw.rd ((b.hart.bus.timer.mtime + 1).setWidth 32)).clearZero := by
    show (b.hart.tick.dispatch b.step.2.raw).1.regs = _
    rw [Hart.dispatch_hart, heffect]
    rfl
  rw [step_regs, hregs, RegFile.get_clearZero, if_neg hrd, RegFile.get_set, if_pos rfl]

/-! ## Calls of a host -/

/-- What a host calls. A condition that ends a run sees the board alone; one that also
    remembers what it saw is no more general, since no board comes twice in a run. -/
inductive Call where
  | request (r : Request)
  /-- One cycle, unless the budget is used up. -/
  | stepIfRunning
  | run
  | runUntil (stop : Board → Bool)

/-- What a call does. -/
def call (b : Board) : Call → Board
  | .request r => (b.serve r).1
  | .stepIfRunning => (b.step?.map Prod.fst).getD b
  | .run => b.run
  | .runUntil stop => b.runUntil stop

/-- The number of cycles that a call executes. -/
def cyclesOf (b : Board) : Call → Nat
  | .request .step => 1
  | .request _ => 0
  | .stepIfRunning => if b.status = .running then 1 else 0
  | .run => b.runLength fun _ => false
  | .runUntil stop => b.runLength stop

/-- What a list of calls does, the first one first. -/
def callAll (b : Board) : List Call → Board
  | [] => b
  | c :: cs => (b.call c).callAll cs

/-- The number of cycles that a list of calls executes. -/
def cyclesOver (b : Board) : List Call → Nat
  | [] => 0
  | c :: cs => b.cyclesOf c + (b.call c).cyclesOver cs

/-- Only cycles move the counters and the status. -/
theorem serve_counters (b : Board) {r : Request} (hr : r ≠ .step) :
    (b.serve r).1.hart.bus.timer.mtime = b.hart.bus.timer.mtime ∧
      (b.serve r).1.cycles = b.cycles ∧ (b.serve r).1.instret = b.instret ∧
      (b.serve r).1.status = b.status ∧ (b.serve r).1.config = b.config := by
  cases r with
  | step => exact absurd rfl hr
  | setInterruptLine i level =>
    rw [serve, setInterruptLine]
    split <;> exact ⟨rfl, rfl, rfl, rfl, rfl⟩
  | writeMem a data size =>
    exact ⟨b.hart.bus.mtime_write a data size, rfl, rfl, rfl, rfl⟩
  | _ => exact ⟨rfl, rfl, rfl, rfl, rfl⟩

/-! ## Counting -/

/-- The counters of a board tell that `n` cycles have run since it was new, and its
    status tells whether these have used up the budget. -/
structure Counted (config : Config) (n : Nat) (b : Board) : Prop where
  config_eq : b.config = config
  mtime : b.hart.bus.timer.mtime = BitVec.ofNat 64 n
  cycles : b.cycles = BitVec.ofNat 64 n
  instret : b.instret = BitVec.ofNat 64 n
  halt_iff : n < 2 ^ 64 → (b.status = .halt ↔ config.maxCycles.toNat ≤ n)

namespace Counted

variable {config : Config} {n : Nat} {b : Board}

theorem new (rom : Rom) (config : Config) : (Board.new rom config).Counted config 0 where
  config_eq := rfl
  mtime := rfl
  cycles := rfl
  instret := rfl
  halt_iff _ := by
    show (if config.maxCycles = 0 then Status.halt else .running) = .halt ↔ _
    by_cases hzero : config.maxCycles = 0
    · rw [if_pos hzero, hzero]
      exact ⟨fun _ => Nat.le_refl 0, fun _ => rfl⟩
    · rw [if_neg hzero]
      refine ⟨nofun, fun hle => absurd (BitVec.eq_of_toNat_eq ?_) hzero⟩
      exact Nat.le_zero.1 hle

/-- A cycle counts once, whatever its instruction does. -/
theorem step (hb : b.Counted config n) : b.step.1.Counted config (n + 1) where
  config_eq := b.step_config.trans hb.config_eq
  mtime := by rw [step_mtime, hb.mtime, Count.ofNat_succ]
  cycles := by rw [step_cycles, hb.cycles, Count.ofNat_succ]
  instret := by rw [step_instret, hb.instret, Count.ofNat_succ]
  halt_iff hlt := by
    have hbefore := hb.halt_iff (by omega)
    have hcount : (b.cycles + 1).toNat = n + 1 := by
      rw [hb.cycles, Count.ofNat_succ, BitVec.toNat_ofNat, Nat.mod_eq_of_lt hlt]
    have hlimit : config.maxCycles ≤ b.cycles + 1 ↔ config.maxCycles.toNat ≤ n + 1 := by
      rw [BitVec.le_def, hcount]
    rw [step_status, hb.config_eq]
    -- below the limit the status stays, and it was not halted there
    split
    next hle => exact ⟨fun _ => hlimit.1 hle, fun _ => rfl⟩
    next hnot =>
      rw [hbefore, ← hlimit]
      exact ⟨fun hle => hlimit.2 (by omega), fun hle => absurd hle hnot⟩

theorem after (hb : b.Counted config n) (k : Nat) : (b.after k).Counted config (n + k) := by
  induction k with
  | zero => exact hb
  | succ k ih => exact ih.step

theorem runUntil (hb : b.Counted config n) (stop : Board → Bool) :
    (b.runUntil stop).Counted config (n + b.runLength stop) := by
  rw [runUntil_eq_after_runLength]
  exact hb.after _

theorem serve (hb : b.Counted config n) {r : Request} (hr : r ≠ .step) :
    (b.serve r).1.Counted config n := by
  obtain ⟨hmtime, hcycles, hinstret, hstatus, hconfig⟩ := b.serve_counters hr
  constructor
  · rw [hconfig, hb.config_eq]
  · rw [hmtime, hb.mtime]
  · rw [hcycles, hb.cycles]
  · rw [hinstret, hb.instret]
  · rw [hstatus]
    exact hb.halt_iff

theorem call (hb : b.Counted config n) (c : Call) :
    (b.call c).Counted config (n + b.cyclesOf c) := by
  cases c with
  | request r =>
    by_cases hr : r = .step
    · subst hr
      exact hb.step
    · have hnone : b.cyclesOf (.request r) = 0 := by
        cases r <;> first | rfl | exact absurd rfl hr
      rw [hnone]
      exact hb.serve hr
  | stepIfRunning =>
    -- on a halted board there is no cycle, and none is counted
    rw [Board.call, cyclesOf, step?]
    cases b.status with
    | running => exact hb.step
    | halt => exact hb
  | run => exact hb.runUntil _
  | runUntil stop => exact hb.runUntil stop

/-- The counters tell the number of cycles after any calls of a host. -/
theorem callAll (hb : b.Counted config n) (cs : List Call) :
    (b.callAll cs).Counted config (n + b.cyclesOver cs) := by
  induction cs generalizing b n with
  | nil => exact hb
  | cons c cs ih =>
    rw [cyclesOver, ← Nat.add_assoc]
    exact ih (hb.call c)

end Counted

/-- **Counters in step.** After any calls of a host, as long as fewer than `2 ^ 64` cycles
    have run, the timer's counter, the cycles and the instructions are the number of cycles,
    and the board is halted exactly when these have used up the budget. The next cycle adds
    one to each, whatever its instruction does, also on a halted board; and if it is a word
    load from the timer's counter to a register, it brings the low word of the new number. -/
theorem counters_in_step (rom : Rom) (config : Config) (calls : List Call) :
    let start := Board.new rom config
    let n := start.cyclesOver calls
    let b := start.callAll calls
    n < 2 ^ 64 →
    b.hart.bus.timer.mtime.toNat = n ∧ b.cycles.toNat = n ∧ b.instret.toNat = n ∧
    (b.status = .halt ↔ config.maxCycles ≤ b.cycles) ∧
    b.step.1.hart.bus.timer.mtime = b.hart.bus.timer.mtime + 1 ∧
    b.step.1.cycles = b.cycles + 1 ∧ b.step.1.instret = b.instret + 1 ∧
    (b.step.2.raw.access? = some (.load .word false) →
      b.hart.loadAddress b.step.2.raw = Bus.mtime → b.step.2.raw.rd ≠ Reg.zero →
      (b.step.1.hart.regs.get b.step.2.raw.rd).toNat = (n + 1) % 2 ^ 32) := by
  intro start n b hlt
  have hb : b.Counted config n := by
    have hcalls := (Counted.new rom config).callAll calls
    rwa [Nat.zero_add] at hcalls
  -- below the size of the counters they have not wrapped around
  have hmod : (BitVec.ofNat 64 n).toNat = n := by
    rw [BitVec.toNat_ofNat, Nat.mod_eq_of_lt hlt]
  refine ⟨?_, ?_, ?_, ?_, b.step_mtime, b.step_cycles, b.step_instret, ?_⟩
  · rw [hb.mtime, hmod]
  · rw [hb.cycles, hmod]
  · rw [hb.instret, hmod]
  · rw [hb.halt_iff hlt, BitVec.le_def, hb.cycles, hmod]
  · intro hload ha hrd
    rw [get_rd_step hload ha hrd, hb.mtime, Count.ofNat_succ, BitVec.toNat_setWidth,
      BitVec.toNat_ofNat]
    omega

/-- A program that stores to the timer's counter and then loads from it: its third cycle,
    forced after a budget of two, brings 3. -/
theorem counters_in_step_of_load :
    let rom := Rom.ofWords [0x200002B7, 0x0052A023, 0x0002A303]
    let config := { Config.standard with maxCycles := 2 }
    let calls : List Call :=
      [.request (.writeMem Bus.mtime 77 .word), .request .step, .stepIfRunning, .run]
    let b := (Board.new rom config).callAll calls
    (Board.new rom config).cyclesOver calls = 2 ∧ b.cycles.toNat = 2 ∧ b.status = .halt ∧
      b.step.1.hart.regs.get 6 = 3 := by
  intro rom config calls b
  -- the run is called on a halted board, where it does nothing
  let halted := (Board.new rom config).callAll (calls.take 3)
  have hstops : halted.Stops fun _ => false := Or.inl (by decide +kernel)
  have hb : b = halted := runUntil_of_stops hstops
  have hn : (Board.new rom config).cyclesOver calls = 2 := by
    show 0 + (1 + (_ + (halted.runLength _ + 0))) = 2
    rw [runLength_of_stops hstops]
    decide +kernel
  obtain ⟨-, hcycles, -, -, -, -, -, hload⟩ :=
    counters_in_step rom config calls (by rw [hn]; decide)
  have hraw : b.step.2.raw = 0x0002A303 := by
    rw [hb]
    decide +kernel
  have haddress : b.hart.loadAddress b.step.2.raw = Bus.mtime := by
    rw [hraw, hb]
    decide +kernel
  have hthree := hload (by rw [hraw]; decide) haddress (by rw [hraw]; decide)
  rw [hraw, hn] at hthree
  refine ⟨hn, hcycles.trans hn, ?_, BitVec.eq_of_toNat_eq hthree⟩
  rw [hb]
  decide +kernel

end Board

end Rv32Sim
