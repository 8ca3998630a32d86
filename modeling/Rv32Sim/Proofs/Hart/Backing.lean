/-
  Rv32Sim.Proofs.Hart.Backing

  Execution does not see where a byte is kept. Harts that differ in nothing but alike
  address spaces fetch the same word, compute the same effect from it, and are alike again
  when it is carried out (`Alike.step`).
-/
import Rv32Sim.Proofs.Hart.Exception
import Rv32Sim.Proofs.Memory.Backing

namespace Rv32Sim

namespace Hart

/-! ## Another address space -/

/-- The state with another address space. -/
def withBus (h : Hart) (bus : Bus) : Hart := { h with bus }

/-- The same state, with address spaces that are alike. -/
structure Alike (h h' : Hart) : Prop where
  regs : h'.regs = h.regs
  pc : h'.pc = h.pc
  csrs : h'.csrs = h.csrs
  bus : h.bus.Alike h'.bus
  pending : h'.pending = h.pending
  inTrap : h'.inTrap = h.inTrap

theorem alike_withBus (h : Hart) {bus : Bus} (hbus : h.bus.Alike bus) :
    h.Alike (h.withBus bus) :=
  ⟨rfl, rfl, rfl, hbus, rfl, rfl⟩

theorem Alike.eq_withBus {h h' : Hart} (halike : h.Alike h') : h' = h.withBus h'.bus := by
  obtain ⟨regs, pc, csrs, -, pending, inTrap⟩ := halike
  cases h
  cases h'
  cases regs
  cases pc
  cases csrs
  cases pending
  cases inTrap
  rfl

/-! ## One instruction -/

variable {h : Hart} {bus : Bus}

theorem fetch_withBus (hbus : h.bus.Alike bus) : (h.withBus bus).fetch = h.fetch := by
  have hbacked : (h.withBus bus).hasInstruction = h.hasInstruction := hbus.isBacked h.pc .word
  have hread : (h.withBus bus).bus.read h.pc .word = h.bus.read h.pc .word :=
    hbus.read h.pc .word
  unfold fetch
  rw [hbacked]
  show (if h.hasInstruction then (h.withBus bus).bus.read h.pc .word else nopWord) = _
  rw [hread]

theorem loaded_withBus (hbus : h.bus.Alike bus) (a : Word) (size : AccessSize)
    (signed : Bool) : (h.withBus bus).loaded a size signed = h.loaded a size signed := by
  have hread : (h.withBus bus).bus.read a size = h.bus.read a size := hbus.read a size
  unfold loaded
  rw [hread]

/-- Only loads look at the address space, and to them it is the same. -/
theorem effect_withBus (hbus : h.bus.Alike bus) (decoded : Option Decoded) :
    (h.withBus bus).effect decoded = h.effect decoded := by
  cases decoded with
  | none => rfl
  | some d =>
    unfold effect
    rw [Option.bind_some, Option.bind_some]
    unfold effect?
    -- the arm of the loads is left
    split <;> try rfl
    next size signed rs1 rd imm _ _ =>
      have hloaded := loaded_withBus hbus (h.regs.get rs1 + imm.signExtend 32) size signed
      show (some ((h.withBus bus).writing rd ((h.withBus bus).loaded _ size signed))).getD _ = _
      rw [show (h.withBus bus).regs = h.regs from rfl, hloaded]
      rfl

theorem apply_withBus (hbus : h.bus.Alike bus) (raw : Word) (effect : Effect) :
    (h.apply raw effect).Alike ((h.withBus bus).apply raw effect) := by
  cases effect with
  | retire next result side =>
    cases side with
    | store a data size => cases result <;> exact alike_withBus _ (hbus.write a data size)
    | _ => cases result <;> exact alike_withBus _ hbus
  | raise e => exact alike_withBus _ hbus
  | leaveTrap => exact alike_withBus _ hbus
  | illegal => exact alike_withBus _ hbus

theorem Alike.step {h h' : Hart} (halike : h.Alike h') :
    h.step.1.Alike h'.step.1 ∧ h'.step.2 = h.step.2 := by
  have hbus := halike.bus
  rw [halike.eq_withBus]
  -- the same word is fetched, and from it the same effect computed
  unfold Hart.step
  rw [fetch_withBus hbus]
  unfold dispatch
  simp only [effect_withBus hbus]
  exact ⟨apply_withBus hbus _ _, rfl⟩

/-! ## Between instructions -/

theorem Alike.syncTimerLine {h h' : Hart} (halike : h.Alike h') :
    h.syncTimerLine.Alike h'.syncTimerLine where
  regs := halike.regs
  pc := halike.pc
  csrs := halike.csrs
  bus := halike.bus
  pending := by
    unfold Hart.syncTimerLine
    rw [halike.bus.timer, setPending, setPending, halike.pending]
  inTrap := halike.inTrap

theorem Alike.takeInterrupt {h h' : Hart} (halike : h.Alike h') :
    h.takeInterrupt.1.Alike h'.takeInterrupt.1 := by
  have hbus := halike.bus
  rw [halike.eq_withBus]
  -- what is eligible is read off the lines and the enables alone
  have heligible : (h.withBus h'.bus).eligible? = h.eligible? := rfl
  unfold Hart.takeInterrupt
  rw [heligible]
  cases h.eligible? with
  | none => exact alike_withBus h hbus
  | some i => exact alike_withBus _ hbus

end Hart

end Rv32Sim
