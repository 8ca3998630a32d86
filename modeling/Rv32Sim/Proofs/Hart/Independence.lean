/-
  Rv32Sim.Proofs.Hart.Independence

  What a step does not see. The interrupt lines pass through it untouched
  (`step_withPending`), and the content of mip reaches nothing but mip itself and
  the register that an instruction reads it into (`step_withMip`).
-/
import Rv32Sim.Proofs.Hart.Exception

namespace Rv32Sim

namespace Hart

/-! ## Interrupt lines -/

/-- The state with other interrupt lines. -/
def withPending (h : Hart) (lines : Word) : Hart := { h with pending := lines }

theorem execute_withPending (h : Hart) (lines : Word) (effect : Effect) :
    (h.withPending lines).execute effect = (h.execute effect).withPending lines := by
  cases effect with
  | retire next result side => cases side <;> cases result <;> rfl
  | _ => rfl

theorem apply_withPending (h : Hart) (lines raw : Word) (effect : Effect) :
    (h.withPending lines).apply raw effect = (h.apply raw effect).withPending lines := by
  rw [Hart.apply, Hart.apply, execute_withPending]
  cases effect.exception? with
  | none => rfl
  | some e =>
    -- an exception takes no line down
    simp only [enterTrap_exception]
    rfl

theorem step_withPending (h : Hart) (lines : Word) :
    (h.withPending lines).step = (h.step.1.withPending lines, h.step.2) := by
  have heffect (decoded : Option Decoded) :
      (h.withPending lines).effect decoded = h.effect decoded := rfl
  have hfetch : (h.withPending lines).fetch = h.fetch := rfl
  unfold step dispatch
  simp only [hfetch, heffect, apply_withPending]
  rfl

/-! ## The content of mip -/

/-- The state with another content of mip. -/
def withMip (h : Hart) (w : Word) : Hart := { h with csrs := { h.csrs with mip := w } }

/-- `h'` is `h` but for the content of mip and one general register. -/
def AgreesButMip (h h' : Hart) : Prop :=
  ∃ (rd : Reg) (regs : RegFile) (w : Word),
    h' = { h.withMip w with regs := regs } ∧ ∀ r, r ≠ rd → regs.get r = h.regs.get r

theorem AgreesButMip.withMip (h : Hart) (w : Word) : AgreesButMip h (h.withMip w) :=
  ⟨Reg.zero, h.regs, w, rfl, fun _ _ => rfl⟩

theorem read?_withMip (h : Hart) (w : Word) {a : CsrAddress} (ha : Csr.ofAddress? a ≠ some .mip) :
    (h.withMip w).csrs.read? a = h.csrs.read? a := by
  unfold CsrBank.read?
  cases hc : Csr.ofAddress? a with
  | none => rfl
  | some c =>
    rw [hc] at ha
    cases c <;> first | rfl | exact absurd rfl ha

/-- A write through a CSR address treats a bank with another mip alike. -/
theorem write_withMip (h : Hart) (w : Word) (a : CsrAddress) (value : Word) :
    ∃ w', (h.withMip w).csrs.write a value = { h.csrs.write a value with mip := w' } := by
  unfold CsrBank.write
  cases Csr.ofAddress? a with
  | none => exact ⟨w, rfl⟩
  | some c => cases c <;> exact ⟨_, rfl⟩

/-- A write to mip leaves nothing of its content before. -/
theorem write_mip_withMip (h : Hart) (w : Word) {a : CsrAddress}
    (ha : Csr.ofAddress? a = some .mip) (value value' : Word) :
    ∃ w', (h.withMip w).csrs.write a value' = { h.csrs.write a value with mip := w' } := by
  unfold CsrBank.write
  rw [ha]
  exact ⟨_, rfl⟩

/-- The effects `e` and `e'` bring different values from mip to a register, and different
    values back. -/
def DifferAtMip (e e' : Effect) : Prop :=
  ∃ (next : Word) (rd : Reg) (a : CsrAddress) (old old' new new' : Word),
    Csr.ofAddress? a = some .mip ∧
    e = .retire next (some (rd, old)) (.csrWrite a new) ∧
    e' = .retire next (some (rd, old')) (.csrWrite a new')

theorem csrEffect_withMip (h : Hart) (w : Word) (op : CsrOp) (rd : Reg) (a : CsrAddress)
    (operand : Word) :
    (h.withMip w).csrEffect op rd a operand = h.csrEffect op rd a operand ∨
      DifferAtMip (h.csrEffect op rd a operand) ((h.withMip w).csrEffect op rd a operand) := by
  by_cases ha : Csr.ofAddress? a = some .mip
  · exact .inr ⟨_, _, _, _, _, _, _, ha, rfl, rfl⟩
  · -- an address of another register reads the same, so both effects are one
    left
    unfold csrEffect
    rw [read?_withMip h w ha]
    rfl

/-- Only an instruction that works on mip has another effect. -/
theorem effect_withMip (h : Hart) (w : Word) (decoded : Option Decoded) :
    (h.withMip w).effect decoded = h.effect decoded ∨
      DifferAtMip (h.effect decoded) ((h.withMip w).effect decoded) := by
  cases decoded with
  | none => exact .inl rfl
  | some d =>
    unfold effect
    simp only [Option.bind_some]
    unfold effect?
    -- every arm but the two of the CSR instructions leaves the bank alone
    split <;> try exact .inl rfl
    · exact csrEffect_withMip h w _ _ _ _
    · exact csrEffect_withMip h w _ _ _ _

/-- Whatever is executed, only the new content of mip is left to name. -/
theorem execute_withMip (h : Hart) (w : Word) (effect : Effect) :
    ∃ w', (h.withMip w).execute effect = (h.execute effect).withMip w' := by
  cases effect with
  | retire next result side =>
    cases side with
    | csrWrite a value =>
      obtain ⟨w', hw'⟩ := write_withMip h w a value
      refine ⟨w', ?_⟩
      cases result <;> simp only [execute, perform, applySide, writeCsr, hw'] <;> rfl
    | _ => cases result <;> exact ⟨w, rfl⟩
  | _ => exact ⟨w, rfl⟩

theorem apply_withMip (h : Hart) (w raw : Word) (effect : Effect) :
    AgreesButMip (h.apply raw effect) ((h.withMip w).apply raw effect) := by
  obtain ⟨w', hw'⟩ := execute_withMip h w effect
  rw [Hart.apply, Hart.apply, hw']
  cases effect.exception? with
  | none => exact .withMip _ w'
  | some e =>
    -- entry to a trap keeps mip as it is
    simp only [enterTrap_exception]
    exact .withMip _ w'

theorem apply_of_differAtMip (h : Hart) (w raw : Word) {e e' : Effect}
    (hdiff : DifferAtMip e e') :
    AgreesButMip (h.apply raw e) ((h.withMip w).apply raw e') := by
  obtain ⟨next, rd, a, old, old', new, new', ha, rfl, rfl⟩ := hdiff
  obtain ⟨w', hw'⟩ := write_mip_withMip h w ha new new'
  refine ⟨rd, (h.regs.set rd old').clearZero, w', ?_, ?_⟩
  · simp only [Hart.apply, Effect.exception?, execute, perform, applySide, writeCsr, hw']
    rfl
  · intro r hr
    have hregs : (h.apply raw (.retire next (some (rd, old)) (.csrWrite a new))).regs =
        (h.regs.set rd old).clearZero := rfl
    rw [hregs, RegFile.get_clearZero, RegFile.get_clearZero, RegFile.get_set, RegFile.get_set,
      if_neg hr, if_neg hr]

/-- Two effects that differ at mip raise nothing. -/
theorem exception?_of_differAtMip {e e' : Effect} (hdiff : DifferAtMip e e') :
    e'.exception? = e.exception? := by
  obtain ⟨_, _, _, _, _, _, _, _, rfl, rfl⟩ := hdiff
  rfl

/-- A step does the same whatever mip holds, except for mip itself and the register that
    it may be read into. -/
theorem step_withMip (h : Hart) (w : Word) :
    (h.withMip w).step.2 = h.step.2 ∧ AgreesButMip h.step.1 (h.withMip w).step.1 := by
  have hfetch : (h.withMip w).fetch = h.fetch := rfl
  unfold step
  rw [hfetch]
  unfold dispatch
  obtain heq | hdiff := effect_withMip h w (Decoder.standard.decode h.fetch)
  · simp only [heq]
    exact ⟨rfl, apply_withMip h w _ _⟩
  · simp only [exception?_of_differAtMip hdiff]
    exact ⟨rfl, apply_of_differAtMip h w _ hdiff⟩

theorem AgreesButMip.syncTimerLine {h h' : Hart} (hagree : AgreesButMip h h') :
    AgreesButMip h.syncTimerLine h'.syncTimerLine := by
  obtain ⟨rd, regs, w, rfl, hregs⟩ := hagree
  exact ⟨rd, regs, w, rfl, hregs⟩

/-- The same interrupt is taken whatever mip holds. -/
theorem AgreesButMip.takeInterrupt {h h' : Hart} (hagree : AgreesButMip h h') :
    h'.takeInterrupt.2 = h.takeInterrupt.2 ∧
      AgreesButMip h.takeInterrupt.1 h'.takeInterrupt.1 := by
  obtain ⟨rd, regs, w, rfl, hregs⟩ := hagree
  have heligible : ({ h.withMip w with regs := regs } : Hart).eligible? = h.eligible? := rfl
  unfold Hart.takeInterrupt
  rw [heligible]
  cases h.eligible? with
  | none => exact ⟨rfl, rd, regs, w, rfl, hregs⟩
  | some i => exact ⟨rfl, rd, regs, w, rfl, hregs⟩

end Hart

end Rv32Sim
