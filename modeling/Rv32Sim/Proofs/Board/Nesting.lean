/-
  Rv32Sim.Proofs.Board.Nesting

  Interrupts inside handlers. Entry to a trap puts the global enable off, and from there
  on it stays off until software asks for it, by an instruction or through the host
  (`disabled_serveAll`). Until then no cycle takes an interrupt, whatever the handler and
  the host do, and the lines that the host brings up wait (`no_nested_interrupt`).
-/
import Rv32Sim.Proofs.Hart.Enable
import Rv32Sim.Proofs.Board.HostLines

namespace Rv32Sim

namespace Board

/-- The global interrupt enable, as mstatus has it. -/
def enabled (b : Board) : Bool := b.hart.csrs.mstatus.getLsbD mieBit

/-- The next cycle of `b` executes a word that puts the enable on. -/
def SetsEnable (b : Board) : Prop := b.hart.SetsEnable b.step.2.raw

instance (b : Board) : Decidable b.SetsEnable := inferInstanceAs (Decidable (b.hart.SetsEnable _))

/-- With this entry of a history software asks for interrupts: the program puts the enable
    on, or the host writes to mstatus. -/
def AsksForInterrupts : Board × Request → Prop
  | (b, .step) => b.SetsEnable
  | (_, .writeCsr a _) => a = Csr.mstatus.address
  | _ => False

instance (v : Board × Request) : Decidable (AsksForInterrupts v) :=
  match v with
  | (b, .step) => inferInstanceAs (Decidable b.SetsEnable)
  | (_, .writeCsr a _) => inferInstanceAs (Decidable (a = Csr.mstatus.address))
  | (_, .setInterruptLine _ _) => inferInstanceAs (Decidable False)
  | (_, .writeMem _ _ _) => inferInstanceAs (Decidable False)
  | (_, .readMem _ _) => inferInstanceAs (Decidable False)

/-! ## One cycle -/

section Cycle

variable {b : Board}

theorem executed_enable_iff (hoff : b.enabled = false) :
    b.executed.1.csrs.mstatus.getLsbD mieBit = true ↔ b.SetsEnable :=
  Hart.enable_dispatch_iff (h := b.hart.tick) hoff b.hart.tick.fetch

/-- Without the enable behind the instruction there is no interrupt. -/
theorem taken?_of_executed_disabled (hm : b.hart.csrs.Mirrored)
    (hoff : b.executed.1.csrs.mstatus.getLsbD mieBit = false) : b.taken? = none := by
  rw [taken?_eq_none_iff hm]
  intro i hdue
  have hon : b.executed.1.csrs.mstatus.getLsbD mieBit = true := hdue.enable
  rw [hoff] at hon
  cases hon

/-- An interrupt that is taken puts the enable off. -/
theorem enabled_step_of_taken (hm : b.hart.csrs.Mirrored) {i : Interrupt}
    (htaken : b.taken? = some i) : b.step.1.enabled = false := by
  rw [enabled, step_hart_of_taken hm htaken, Hart.interrupted]
  exact (Word.getLsbD_assignBit _ (by decide) _ _).trans (if_pos rfl)

theorem enabled_step_of_not_taken (htaken : b.taken? = none) :
    b.step.1.enabled = b.executed.1.csrs.mstatus.getLsbD mieBit := by
  rw [enabled, step_hart_of_not_taken htaken]
  rfl

/-- While the enable is off, a cycle puts it on exactly by a word that does so, unless it
    takes an interrupt at once. -/
theorem enabled_step_iff (hm : b.hart.csrs.Mirrored) (hoff : b.enabled = false) :
    b.step.1.enabled = true ↔ b.SetsEnable ∧ b.taken? = none := by
  cases htaken : b.taken? with
  | none =>
    rw [enabled_step_of_not_taken htaken, executed_enable_iff hoff]
    exact ⟨fun h => ⟨h, rfl⟩, And.left⟩
  | some i =>
    rw [enabled_step_of_taken hm htaken]
    exact ⟨nofun, fun h => by cases h.2⟩

/-- A cycle that enters a trap leaves the enable off. -/
theorem enabled_step_of_entries (hm : b.hart.csrs.Mirrored) (hentry : b.entries ≠ []) :
    b.step.1.enabled = false := by
  cases htaken : b.taken? with
  | some i => exact enabled_step_of_taken hm htaken
  | none =>
    -- then the entry is that of an exception
    have hexc : b.executed.2.exception ≠ none := by
      intro hretired
      rw [entries, htaken, hretired] at hentry
      exact hentry rfl
    rw [enabled_step_of_not_taken htaken]
    exact Hart.enable_dispatch_of_exception (h := b.hart.tick) hexc

end Cycle

/-! ## Histories -/

/-- Between cycles only a write to mstatus moves the enable. -/
theorem enabled_serve_of_ne {b : Board} {r : Request} (hr : r ≠ .step)
    (hquiet : ¬AsksForInterrupts (b, r)) : (b.serve r).1.enabled = b.enabled := by
  cases r with
  | step => exact absurd rfl hr
  | setInterruptLine i level =>
    show (b.setInterruptLine i level).enabled = _
    unfold setInterruptLine
    split <;> rfl
  | writeCsr a w =>
    have hother : a ≠ Csr.mstatus.address := hquiet
    have hmstatus := b.hart.csrs.mstatus_write a w
    rw [if_neg hother] at hmstatus
    exact congrArg (BitVec.getLsbD · mieBit) hmstatus
  | writeMem a data size => rfl
  | readMem a size => rfl

/-- Once off, the enable stays off, also behind the instruction of each cycle, until
    software asks for interrupts. -/
theorem disabled_serveAll {b : Board} (hb : b.Reachable) (hoff : b.enabled = false)
    {rs : List Request} (hquiet : ∀ v ∈ b.history rs, ¬AsksForInterrupts v) :
    (∀ v ∈ b.history rs, v.2 = .step →
      v.1.executed.1.csrs.mstatus.getLsbD mieBit = false ∧ v.1.taken? = none) ∧
    (b.serveAll rs).1.enabled = false := by
  induction rs generalizing b with
  | nil => exact ⟨List.forall_mem_nil _, hoff⟩
  | cons r rs ih =>
    rw [history, List.forall_mem_cons] at hquiet ⊢
    obtain ⟨hfirst, hrest⟩ := hquiet
    by_cases hr : r = .step
    · -- off behind the instruction, so no interrupt, so off at the end of the cycle
      subst hr
      have hexecuted : b.executed.1.csrs.mstatus.getLsbD mieBit = false :=
        Bool.eq_false_iff.2 (mt (executed_enable_iff hoff).1 hfirst)
      have htaken := taken?_of_executed_disabled hb.mirrored hexecuted
      have hnext : b.step.1.enabled = false :=
        (enabled_step_of_not_taken htaken).trans hexecuted
      obtain ⟨hlater, hlast⟩ := ih hb.step hnext hrest
      exact ⟨⟨fun _ => ⟨hexecuted, htaken⟩, hlater⟩, hlast⟩
    · have hnext : (b.serve r).1.enabled = false :=
        (enabled_serve_of_ne hr hfirst).trans hoff
      obtain ⟨hlater, hlast⟩ := ih (hb.serve r) hnext hrest
      exact ⟨⟨fun hstep => absurd hstep hr, hlater⟩, hlast⟩

/-- While the enable stays off, a line of the host that is up waits. -/
theorem lineUp_of_disabled {b : Board} (hb : b.Reachable) (hoff : b.enabled = false)
    {rs : List Request} (hquiet : ∀ v ∈ b.history rs, ¬AsksForInterrupts v) {i : Interrupt}
    (hi : i ≠ .timer) {pre post : List Request} (hrs : rs = pre ++ post)
    (hup : (b.serveAll pre).1.lineUp i = true) (hkept : .setInterruptLine i false ∉ post) :
    (b.serveAll rs).1.lineUp i = true := by
  subst hrs
  rw [history_append, List.forall_mem_append] at hquiet
  obtain ⟨hbefore, hbehind⟩ := hquiet
  have hmid : (b.serveAll pre).1.Reachable := hb.serveAll pre
  obtain ⟨-, hoffMid⟩ := disabled_serveAll hb hoff hbefore
  -- the entries from the middle on are entries of the whole history
  obtain ⟨hcycles, -⟩ := disabled_serveAll hmid hoffMid hbehind
  -- a cycle that leaves the enable off offers nothing delivery
  have hoffers : ∀ v ∈ (b.serveAll pre).1.history post, v.2 = .step → ¬v.1.Offers i := by
    intro v hv hstep hoffers
    have hon : v.1.executed.1.csrs.mstatus.getLsbD mieBit = true := hoffers.enable
    rw [(hcycles v hv hstep).1] at hon
    cases hon
  rw [serveAll_append]
  exact (lineUp_serveAll hmid hi hup hkept hoffers).2

/-- **No nested interrupt.** While the enable is off, on a board that a host can get to, a
    cycle puts it on only by returning from a trap that saved it or by a CSR instruction
    that writes it to mstatus; the copy of the enable goes along. So from the entry to a
    trap on, for as long as neither happens and the host does not write to mstatus, no
    cycle takes an interrupt, and each line that the host brings up or finds up and does
    not lower is up at the end. -/
theorem no_nested_interrupt {b : Board} (hb : b.Reachable) :
    (b.enabled = false → (b.step.1.enabled = true ↔ b.SetsEnable ∧ b.taken? = none)) ∧
    b.hart.csrs.interruptsEnabled = b.enabled ∧
    b.step.1.hart.csrs.interruptsEnabled = b.step.1.enabled ∧
    (b.entries ≠ [] → ∀ rs : List Request,
      (∀ v ∈ b.step.1.history rs, ¬AsksForInterrupts v) →
      (∀ v ∈ b.step.1.history rs, v.2 = .step → v.1.taken? = none) ∧
      (b.step.1.serveAll rs).1.enabled = false ∧
      ∀ i, i ≠ .timer → ∀ pre post : List Request, .setInterruptLine i false ∉ post →
        (rs = pre ++ post → (b.step.1.serveAll pre).1.lineUp i = true →
          (b.step.1.serveAll rs).1.lineUp i = true) ∧
        (rs = pre ++ .setInterruptLine i true :: post →
          (b.step.1.serveAll rs).1.lineUp i = true)) := by
  have hm := hb.mirrored
  refine ⟨enabled_step_iff hm, hm, hb.step.mirrored, ?_⟩
  intro hentry rs hquiet
  have hoff := enabled_step_of_entries hm hentry
  obtain ⟨hcycles, hlast⟩ := disabled_serveAll hb.step hoff hquiet
  refine ⟨fun v hv hstep => (hcycles v hv hstep).2, hlast, ?_⟩
  intro i hi pre post hkept
  refine ⟨fun hrs hup => lineUp_of_disabled hb.step hoff hquiet hi hrs hup hkept, ?_⟩
  intro hrs
  -- the line is up behind the call that brings it up
  have hrs' : rs = pre ++ [Request.setInterruptLine i true] ++ post :=
    hrs.trans (List.append_cons pre _ post)
  have hup : (b.step.1.serveAll (pre ++ [Request.setInterruptLine i true])).1.lineUp i = true := by
    rw [serveAll_append]
    show ((b.step.1.serveAll pre).1.setInterruptLine i true).lineUp i = true
    rw [lineUp_setInterruptLine, if_pos ⟨rfl, hi⟩]
  exact lineUp_of_disabled hb.step hoff hquiet hi hrs' hup hkept

/-- A handler that raises exceptions of its own while the host brings up the software line
    and the timer's; and a return from a trap that saved the enable, which puts it on. -/
theorem no_nested_interrupt_of_ecall :
    let rom := Rom.ofList [(0, ecallWord), (CsrBank.mtvecReset, ecallWord)]
    let b := (Board.new rom .standard).performAll
      [.writeCsr Csr.mie.address 0x888, .writeCsr Csr.mstatus.address 8]
    let rs : List Request :=
      [.step, .setInterruptLine .software true, .writeMem Bus.mtimecmp 0 .word, .step, .step]
    let returning := (Board.new (Rom.ofWords [mretWord]) .standard).performAll
      [.writeCsr Csr.mstatus.address 0x80]
    b.enabled = true ∧ b.entries = [.exception .environmentCall] ∧
    (∀ v ∈ b.step.1.history rs, v.2 = .step → v.1.taken? = none) ∧
    (b.step.1.serveAll rs).1.lineUp .software = true ∧
    returning.enabled = false ∧ returning.step.1.enabled = true := by
  intro rom b rs returning
  have hentry : b.entries = [.exception .environmentCall] := by decide +kernel
  obtain ⟨-, -, -, handler⟩ := no_nested_interrupt (b := b) ⟨_, _, _, rfl⟩
  obtain ⟨hnone, -, hlines⟩ := handler (by rw [hentry]; exact nofun) rs (by decide +kernel)
  have hsoftware := (hlines .software (by decide) [.step]
    [.writeMem Bus.mtimecmp 0 .word, .step, .step] (by decide)).2 rfl
  have hoff : returning.enabled = false := by decide +kernel
  obtain ⟨hturns, -⟩ := no_nested_interrupt (b := returning) ⟨_, _, _, rfl⟩
  have hon := (hturns hoff).2 ⟨by decide +kernel, by decide +kernel⟩
  exact ⟨by decide +kernel, hentry, hnone, hsoftware, hoff, hon⟩

end Board

end Rv32Sim
