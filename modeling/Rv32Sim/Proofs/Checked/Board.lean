/-
  Rv32Sim.Proofs.Checked.Board

  A cycle that stops where a part of it has no result. Its instruction and the delivery of
  an interrupt stop nowhere on any board; what is left are the two counters, which stop at
  their greatest value and tell the number of cycles that have run. So no cycle stops as long
  as fewer than `2 ^ 64 - 1` have (`step_never_faults`).
-/
import Rv32Sim.Proofs.Board.Counters
import Rv32Sim.Proofs.Checked.Hart

namespace Rv32Sim

namespace Board

/-! ## One cycle -/

/-- The hart at the end of a cycle whose instruction led to `h`. -/
def checkedDelivered (h : Hart) (retired : Bool) : Except Fault Hart :=
  if retired then h.syncTimerLine.checkedTakeInterrupt else return h.syncTimerLine

/-- One cycle, also after the budget is used up. -/
def checkedStep (b : Board) : Except Fault Board := do
  let (h, exception?) ← b.hart.tick.checkedStep
  -- an instruction that raised an exception counts as well
  let instret ← b.instret.checkedSucc
  let hart ← checkedDelivered h exception?.isNone
  let cycles ← b.cycles.checkedSucc
  return {
    hart
    config := b.config
    cycles
    instret
    status := if b.config.maxCycles ≤ cycles then .halt else b.status }

theorem checkedDelivered_eq (h : Hart) (retired : Bool) :
    checkedDelivered h retired = .ok (delivered h retired) := by
  rw [checkedDelivered, delivered, Hart.checkedTakeInterrupt_eq]
  cases retired <;> rfl

/-- A cycle stops for a counter at its greatest value, and for nothing else. -/
theorem checkedStep_eq (b : Board) :
    b.checkedStep =
      if b.instret = BitVec.allOnes 64 ∨ b.cycles = BitVec.allOnes 64 then .error .overflow
      else .ok b.step.1 := by
  rw [checkedStep, Hart.checkedStep_eq, Fault.ok_bind]
  dsimp only
  by_cases hinstret : b.instret = BitVec.allOnes 64
  · rw [if_pos (Or.inl hinstret), Count.checkedSucc, if_pos hinstret]
    rfl
  · rw [Count.checkedSucc, if_neg hinstret, Fault.ok_bind, checkedDelivered_eq, Fault.ok_bind]
    by_cases hcycles : b.cycles = BitVec.allOnes 64
    · rw [if_pos (Or.inr hcycles), Count.checkedSucc, if_pos hcycles]
      rfl
    · rw [if_neg (not_or.2 ⟨hinstret, hcycles⟩), Count.checkedSucc, if_neg hcycles]
      rfl

/-! ## Counting cycles -/

theorem perform_instret (b : Board) {op : Operation} (hop : op ≠ .step) :
    (b.perform op).instret = b.instret := by
  cases op with
  | step => exact absurd rfl hop
  | setInterruptLine i level =>
    rw [perform, setInterruptLine]
    split <;> rfl
  | _ => rfl

/-- The counters of a board tell how often it has stepped, whatever else was done to it. -/
theorem counters_performAll {b : Board} {n : Nat} (hcycles : b.cycles = BitVec.ofNat 64 n)
    (hinstret : b.instret = BitVec.ofNat 64 n) (ops : List Operation) :
    (b.performAll ops).cycles = BitVec.ofNat 64 (n + ops.count .step) ∧
      (b.performAll ops).instret = BitVec.ofNat 64 (n + ops.count .step) := by
  induction ops generalizing b n with
  | nil => exact ⟨hcycles, hinstret⟩
  | cons op ops ih =>
    show ((b.perform op).performAll ops).cycles = _ ∧ ((b.perform op).performAll ops).instret = _
    by_cases hop : op = .step
    · subst hop
      have hnext : n + (Operation.step :: ops).count .step = n + 1 + ops.count .step := by
        rw [List.count_cons_self]
        omega
      rw [hnext]
      apply ih
      · show b.step.1.cycles = _
        rw [step_cycles, hcycles, Count.ofNat_succ]
      · show b.step.1.instret = _
        rw [step_instret, hinstret, Count.ofNat_succ]
    · rw [List.count_cons_of_ne hop]
      apply ih
      · rw [(b.perform_counters hop).1, hcycles]
      · rw [b.perform_instret hop, hinstret]

/-- **A cycle never stops.** On every board that a host gets to, by cycles and by whatever
    else it does, with fewer than `2 ^ 64 - 1` cycles, the next cycle does without a fault
    what it does without checks. A word decodes without a fault, to operands of a format that
    its instruction can use, whose register numbers are below 32 and whose immediates fit
    their fields, and no hart stops in the execution of these; and the offset of an address in
    the window of a device is never a difference below zero. -/
theorem step_never_faults (rom : Rom) (config : Config) (ops : List Operation)
    (hcount : ops.count .step < 2 ^ 64 - 1) :
    let b := (Board.new rom config).performAll ops
    b.checkedStep = .ok b.step.1 ∧
    (∀ w : Word, ∃ decoded?, Decoder.standard.checkedDecode w = .ok decoded? ∧
      ∀ (m : Mnemonic) (operands : RawOperands), decoded? = some (m, operands) →
        m.action.fits operands.format = true ∧ (∀ id ∈ operands.registers, id.toNat < 32) ∧
        operands.ImmediateFits m ∧ ∀ h : Hart, ∃ e, h.checkedEffect m operands = .ok e) ∧
    (∀ (device : Bus.Device) (a : Word), a - device.window.base < device.window.size →
      a.checkedSub device.window.base = .ok (a - device.window.base)) := by
  intro b
  refine ⟨?_, fun w => ?_, ?_⟩
  · -- the counters are at the number of cycles, and that is below the greatest count
    have hcounters := counters_performAll (b := Board.new rom config) (n := 0) rfl rfl ops
    rw [Nat.zero_add] at hcounters
    have hne : BitVec.ofNat 64 (ops.count .step) ≠ BitVec.allOnes 64 := by
      intro heq
      have hnat := congrArg BitVec.toNat heq
      rw [BitVec.toNat_ofNat, BitVec.toNat_allOnes] at hnat
      omega
    rw [checkedStep_eq, hcounters.1, hcounters.2, if_neg (not_or.2 ⟨hne, hne⟩)]
  · refine ⟨_, Decoder.checkedDecode_eq _ w, fun m operands hd => ?_⟩
    have hdecoded := Decoder.standard.checkedDecode_eq w
    rw [hd] at hdecoded
    obtain ⟨hformat, hregisters, himmediate⟩ := Decoder.fits_of_checkedDecode hdecoded
    exact ⟨hformat, hregisters, himmediate, fun h => h.exists_checkedEffect hdecoded⟩
  · intro device a ha
    exact Word.checkedSub_eq (Window.base_le device.window_le ha)

/-- A program that divides by zero and then loads a word across the end of the address
    space, with the timer and the external line at work in between; and a shift by 31. -/
theorem step_never_faults_of_division :
    let rom := Rom.ofWords [0x0200C133, 0xFFE02183]
    let ops : List Operation := [.step, .tick, .setInterruptLine .external true]
    let b := (Board.new rom .standard).performAll ops
    ops.count .step < 2 ^ 64 - 1 ∧ b.step.2.raw = 0xFFE02183 ∧ b.checkedStep = .ok b.step.1 ∧
      ∃ operands, Decoder.standard.checkedDecode 0x41F0D113 = .ok (some (.srai, operands)) ∧
        operands.ImmediateFits .srai := by
  intro rom ops b
  have hcount : ops.count .step < 2 ^ 64 - 1 := by decide
  obtain ⟨hstep, hwords, -⟩ := step_never_faults rom .standard ops hcount
  have hsrai : Decoder.standard.checkedDecode 0x41F0D113 = .ok (some (.srai, .i 1 2 31)) := by
    decide +kernel
  refine ⟨hcount, by decide +kernel, hstep, .i 1 2 31, hsrai, ?_⟩
  obtain ⟨decoded?, hdecode, hfits⟩ := hwords 0x41F0D113
  rw [hsrai] at hdecode
  exact (hfits .srai (.i 1 2 31) (Except.ok.inj hdecode).symm).2.2.1

end Board

end Rv32Sim
