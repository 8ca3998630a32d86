/-
  Rv32Sim.Proofs.Board.Registers

  The general registers of a board. Only the instruction of a cycle moves them: neither
  the timer, nor delivery of an interrupt, nor the host touches any (`step_regs`,
  `serve_regs`). So x0 reads zero on every board that a host can get to (`Reachable.zero`),
  and on every board that requests and runs lead to (`Leads.zero`).
-/
import Rv32Sim.Proofs.Hart.Registers
import Rv32Sim.Proofs.Board.Requests

namespace Rv32Sim

namespace Board

theorem step_regs (b : Board) : b.step.1.hart.regs = b.executed.1.regs := by
  show (delivered _ _).regs = _
  unfold delivered
  split
  · exact Hart.takeInterrupt_regs _
  · rfl

/-- Only cycles move the registers. -/
theorem serve_regs (b : Board) {r : Request} (hr : r ≠ .step) :
    (b.serve r).1.hart.regs = b.hart.regs := by
  cases r with
  | step => exact absurd rfl hr
  | setInterruptLine i level =>
    show (b.setInterruptLine i level).hart.regs = _
    unfold setInterruptLine
    split <;> rfl
  | _ => rfl

theorem zero_step {b : Board} (hzero : b.hart.regs.get Reg.zero = 0) :
    b.step.1.hart.regs.get Reg.zero = 0 := by
  rw [step_regs]
  exact Hart.dispatch_zero (h := b.hart.tick) hzero b.hart.tick.fetch

theorem zero_serve {b : Board} (hzero : b.hart.regs.get Reg.zero = 0) (r : Request) :
    (b.serve r).1.hart.regs.get Reg.zero = 0 := by
  by_cases hr : r = .step
  · subst hr
    exact zero_step hzero
  · rw [b.serve_regs hr, hzero]

theorem zero_perform {b : Board} (hzero : b.hart.regs.get Reg.zero = 0) (op : Operation) :
    (b.perform op).hart.regs.get Reg.zero = 0 := by
  cases op with
  | step => exact zero_step hzero
  | setInterruptLine i level => exact zero_serve hzero (.setInterruptLine i level)
  | stepHart => exact Hart.dispatch_zero hzero b.hart.fetch
  | takeInterrupt =>
    show b.hart.takeInterrupt.1.regs.get Reg.zero = 0
    rw [Hart.takeInterrupt_regs, hzero]
  | _ => exact hzero

theorem zero_new (rom : Rom) (config : Config) :
    (Board.new rom config).hart.regs.get Reg.zero = 0 := by
  show (RegFile.zeros.set Reg.sp config.initialSp).get Reg.zero = 0
  rw [RegFile.get_set, if_neg (by decide)]
  rfl

/-- x0 reads zero on every board that a host can get to. -/
theorem Reachable.zero {b : Board} (hb : b.Reachable) : b.hart.regs.get Reg.zero = 0 :=
  hb.induction (motive := fun b => b.hart.regs.get Reg.zero = 0) zero_new
    fun _ op hzero => zero_perform hzero op

/-- x0 reads zero after any requests and runs. -/
theorem Leads.zero {b last : Board} (hleads : b.Leads last)
    (hzero : b.hart.regs.get Reg.zero = 0) : last.hart.regs.get Reg.zero = 0 :=
  hleads.induction (motive := fun b => b.hart.regs.get Reg.zero = 0)
    (fun _ r hb => zero_serve hb r) hzero

/-- **Registers.** An instruction changes no register but the one that its word names as
    the destination, and none at all if it is one of those without a result; x0 is zero
    behind it. Delivery of an interrupt and the host change none. So the stack pointer
    starts as configured, x0 reads zero on every board that requests and runs lead to, and
    an instruction does what it would do if each source x0 were the number zero and the
    registers that are not its sources were anything at all. -/
theorem registers_framed :
    (∀ h : Hart, h.regs.get Reg.zero = 0 → ∀ w : Word,
      let h' := (h.dispatch w).1
      h'.regs.get Reg.zero = 0 ∧
      (∀ r, r ≠ w.rd → h'.regs.get r = h.regs.get r) ∧
      (w.WritesNoRegister → h'.regs = h.regs)) ∧
    (∀ h : Hart, h.takeInterrupt.1.regs = h.regs) ∧
    (∀ b : Board, b.step.1.hart.regs = b.executed.1.regs) ∧
    (∀ (b : Board) (r : Request), r ≠ .step → (b.serve r).1.hart.regs = b.hart.regs) ∧
    (∀ (rom : Rom) (config : Config),
      let start := Board.new rom config
      start.hart.regs.get Reg.sp = config.initialSp ∧
      ∀ b, start.Leads b →
        b.hart.regs.get Reg.zero = 0 ∧
        ∀ (d : Decoded) (regs : RegFile),
          (∀ r ∈ d.sources, regs.get r = if r = Reg.zero then 0 else b.hart.regs.get r) →
          (b.hart.tick.withRegs regs).effect (some d) = b.hart.tick.effect (some d)) := by
  refine ⟨?_, Hart.takeInterrupt_regs, step_regs, fun b r => b.serve_regs, ?_⟩
  · intro h hzero w h'
    exact ⟨Hart.dispatch_zero hzero w, fun r => Hart.dispatch_regs_of_ne hzero w,
      Hart.dispatch_regs_of_writesNoRegister hzero⟩
  · intro rom config start
    refine ⟨?_, ?_⟩
    · show (RegFile.zeros.set Reg.sp config.initialSp).get Reg.sp = _
      rw [RegFile.get_set, if_pos rfl]
    · intro b hleads
      have hzero : b.hart.regs.get Reg.zero = 0 := hleads.zero (zero_new rom config)
      refine ⟨hzero, ?_⟩
      intro d regs hregs
      -- the number zero is what the board has in x0 anyway
      have hsources : ∀ r ∈ d.sources, regs.get r = b.hart.tick.regs.get r := by
        intro r hr
        rw [hregs r hr]
        split
        next hr0 => rw [hr0]; exact hzero.symm
        next => rfl
      have heffect := Hart.effect?_withRegs (h := b.hart.tick) hsources
      rw [Hart.effect, Hart.effect, Option.bind_some, Option.bind_some, heffect]

/-- `addi x0, x2, 5` leaves zero behind in x0, `bne x0, x2, 8` leaves x8 alone although
    bits 11 to 7 of its word say 8, and after a run and a cycle with the external line up
    `addi x1, x0, 7` does what it does over a file of zeros. -/
theorem registers_framed_of_addi :
    let start := Board.new .empty { Config.standard with maxCycles := 3 }
    let b := ((start.run.serve (.setInterruptLine .external true)).1.serve .step).1
    (b.hart.dispatch 0x00510013).1.regs.get Reg.zero = 0 ∧
    (b.hart.dispatch 0x00510013).1.regs.get Reg.sp = b.hart.regs.get Reg.sp ∧
    (b.hart.dispatch 0x00201463).1.regs = b.hart.regs ∧
    (start.serve (.setInterruptLine .external true)).1.hart.regs = start.hart.regs ∧
    (b.hart.tick.withRegs .zeros).effect (some ⟨.addi, .i 0 1 7⟩) =
      b.hart.tick.effect (some ⟨.addi, .i 0 1 7⟩) := by
  intro start b
  obtain ⟨instruction, -, -, host, boards⟩ := registers_framed
  have hleads : start.Leads b := .serve .step (.serve _ (.run .start))
  obtain ⟨hzero, hsources⟩ := (boards .empty { Config.standard with maxCycles := 3 }).2 b hleads
  obtain ⟨hclear, hframe, -⟩ := instruction b.hart hzero 0x00510013
  obtain ⟨-, -, hnone⟩ := instruction b.hart hzero 0x00201463
  refine ⟨hclear, hframe Reg.sp (by decide), hnone (by decide +kernel),
    host start (.setInterruptLine .external true) nofun, hsources _ _ ?_⟩
  -- x0 is the only source
  intro r hr
  obtain rfl : r = Reg.zero := List.mem_singleton.1 hr
  rfl

end Board

end Rv32Sim
