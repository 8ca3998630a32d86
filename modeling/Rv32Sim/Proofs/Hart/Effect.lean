/-
  Rv32Sim.Proofs.Hart.Effect

  The effects of decoded words. Each row of the tables gives its instruction
  operands of a kind that it can use (`isaTable_fits`), so a word that decodes has
  an effect (`effect?_of_decode`) and only a word that does not decode is an illegal
  instruction. Two words raise an exception of their own, and no others do. At the end of
  each instruction x0 is cleared. While it is zero this comes to dropping results for it
  (`apply_result`), and changes nothing else (`clearZero_of_zero`).
-/
import Rv32Sim.Proofs.Isa.Decode
import Rv32Sim.Hart.Step

namespace Rv32Sim

/-! ## Kinds of instruction and formats -/

/-- Whether instructions of a kind can use the operands of a format. -/
def Action.fits : Action → Format → Bool
  | .arith _, .r => true
  | .arith _, .i => true
  | .branch _, .b => true
  | .load _ _, .i => true
  | .store _, .s => true
  | .loadUpper, .u => true
  | .addUpper, .u => true
  | .jump, .j => true
  | .jumpRegister, .i => true
  | .csr _ _, .i => true
  | .raise _, _ => true
  | .leaveTrap, _ => true
  | .nop, _ => true
  | _, _ => false

/-- The exception that instructions of a kind raise. -/
def Action.exception? : Action → Option Exception
  | raise e => some e
  | _ => none

/-- The word that raises an exception, for those that one word raises. -/
def Exception.word? : Exception → Option Word
  | illegalInstruction => none
  | breakpoint => some ebreakWord
  | environmentCall => some ecallWord

theorem Exception.mem_all (e : Exception) : e ∈ Exception.all := by
  cases e <;> decide

/-- Every row has a format that its instruction can use. -/
theorem isaTable_fits : ∀ row ∈ isaTable, row.mnemonic.action.fits row.format = true := by
  decide

/-- A row whose instruction raises an exception stands for the one word that raises it. -/
theorem isaTable_raises : ∀ row ∈ isaTable, ∀ e ∈ Exception.all,
    row.mnemonic.action.exception? = some e →
      row.mask = BitVec.allOnes 32 ∧ e.word? = some row.key := by
  decide

/-! ## Results -/

namespace RegFile

variable {regs : RegFile}

/-- The registers with a new value in one of them, unless that is x0. -/
def put (regs : RegFile) (r : Reg) (w : Word) : RegFile :=
  if r = Reg.zero then regs else regs.set r w

/-- While x0 is zero, clearing it behind a result is the same as dropping results for it. -/
theorem clearZero_set (hzero : regs.get Reg.zero = 0) (r : Reg) (w : Word) :
    (regs.set r w).clearZero = regs.put r w := by
  apply ext_get
  intro s
  rw [get_clearZero, get_set, put]
  by_cases hr : r = Reg.zero
  · rw [if_pos hr, hr]
    by_cases hs : s = Reg.zero
    · rw [if_pos hs, hs, hzero]
    · rw [if_neg hs, if_neg hs]
  · rw [if_neg hr, get_set]
    by_cases hs : s = Reg.zero
    · rw [if_pos hs, hs, if_neg (Ne.symm hr), hzero]
    · rw [if_neg hs]

theorem get_zero_put (hzero : regs.get Reg.zero = 0) (r : Reg) (w : Word) :
    (regs.put r w).get Reg.zero = 0 := by
  rw [← clearZero_set hzero, get_zero_clearZero]

theorem get_put_of_ne {r s : Reg} (hs : s ≠ r) (w : Word) : (regs.put r w).get s = regs.get s := by
  rw [put]
  split
  · rfl
  · rw [get_set, if_neg hs]

end RegFile

namespace Hart

variable {h : Hart}

/-! ## Carrying out an effect -/

/-- While x0 is zero, clearing it behind an instruction changes nothing. -/
theorem clearZero_of_zero (hzero : h.regs.get Reg.zero = 0) : h.clearZero = h := by
  rw [clearZero, RegFile.clearZero_of_zero hzero]

/-- An instruction without a register result makes its write and goes on, and of the
    registers only x0 is touched. -/
theorem apply_side (raw next : Word) (side : SideEffect) :
    h.apply raw (.retire next none side) =
      { h.applySide side with pc := next, regs := h.regs.clearZero } := by
  cases side <;> rfl

/-- The result of an instruction goes to its register, unless that is x0. -/
theorem apply_result (hzero : h.regs.get Reg.zero = 0) (raw next : Word) (rd : Reg)
    (value : Word) (side : SideEffect) :
    h.apply raw (.retire next (some (rd, value)) side) =
      { h.applySide side with pc := next, regs := h.regs.put rd value } := by
  rw [← RegFile.clearZero_set hzero]
  cases side <;> rfl

/-- The trap of an exception is entered from the state that the instruction leaves. -/
theorem apply_of_exception {effect : Effect} {e : Exception}
    (hexc : effect.exception? = some e) (raw : Word) :
    h.apply raw effect = (h.execute effect).enterTrap (.exception e) (e.trapValue raw) := by
  rw [apply, hexc]

/-- An instruction that raises does nothing before its trap, as long as x0 is zero. -/
theorem execute_of_exception (hzero : h.regs.get Reg.zero = 0) {effect : Effect}
    {e : Exception} (hexc : effect.exception? = some e) : h.execute effect = h := by
  cases effect with
  | retire next result side => cases hexc
  | raise e' => exact clearZero_of_zero hzero
  | leaveTrap => cases hexc
  | illegal => rfl

/-! ## Effects exist -/

/-- An instruction has an effect on operands of a format that it can use. -/
theorem effect?_ofWord (h : Hart) (m : Mnemonic) (w : Word) {f : Format}
    (hf : m.action.fits f = true) : ∃ e, h.effect? ⟨m, .ofWord m w f⟩ = some e := by
  unfold effect?
  cases hm : m.action <;> rw [hm] at hf <;> cases f
  case csr.i op immediate => cases immediate <;> exact ⟨_, rfl⟩
  all_goals first | exact ⟨_, rfl⟩ | cases hf

theorem effect_of_effect? {d : Decoded} {e : Effect} (he : h.effect? d = some e) :
    h.effect (some d) = e := by
  rw [effect, Option.bind_some, he, Option.getD_some]

/-- A word that decodes has an effect. -/
theorem effect?_of_decode (h : Hart) {w : Word} {d : Decoded}
    (hd : Decoder.standard.decode w = some d) : ∃ e, h.effect? d = some e := by
  obtain ⟨row, hrow, -, -, rfl⟩ | ⟨-, rfl⟩ := Decoder.decode_build_cases hd
  · exact effect?_ofWord h row.mnemonic w (isaTable_fits row hrow)
  · exact ⟨_, rfl⟩

/-! ## Words -/

theorem dispatch_hart (h : Hart) (w : Word) :
    (h.dispatch w).1 = h.apply w (h.effect (Decoder.standard.decode w)) := by
  simp only [dispatch]

theorem dispatch_exception (h : Hart) (w : Word) :
    (h.dispatch w).2.exception = (h.effect (Decoder.standard.decode w)).exception? := by
  simp only [dispatch]

/-- A word does what the effect of its instruction says. -/
theorem dispatch_of_effect? {w : Word} {d : Decoded} (hd : Decoder.standard.decode w = some d)
    {e : Effect} (he : h.effect? d = some e) : (h.dispatch w).1 = h.apply w e := by
  rw [dispatch_hart, hd, effect_of_effect? he]

/-! ## Kinds of instruction -/

/-- What an effect raises depends on the kind of the instruction alone. -/
theorem exception?_of_effect? {d : Decoded} {e : Effect}
    (he : h.effect? d = some e) : e.exception? = d.mnemonic.action.exception? := by
  unfold effect? at he
  -- One case for each arm; its kind of instruction is the hypothesis that `simp` uses.
  split at he <;> cases he <;>
    simp only [*, Effect.exception?, Action.exception?, writing, csrEffect]

/-- An instruction that does nothing only moves on. -/
theorem effect?_of_action_nop (h : Hart) {d : Decoded} (hd : d.mnemonic.action = .nop) :
    h.effect? d = some (.retire (h.pc + 4) none .none) := by
  unfold effect?
  rw [hd]

end Hart

end Rv32Sim
