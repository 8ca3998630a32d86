/-
  Rv32Sim.Proofs.Hart.Enable

  The global interrupt enable through one instruction. Entry to a trap puts it off, and
  what puts it on is written in the program: a return from a trap that saved it, or a CSR
  instruction that writes it (`SetsEnable`). Nothing else does (`enable_dispatch_iff`).
-/
import Rv32Sim.Proofs.Hart.Access
import Rv32Sim.Proofs.Hart.Exception

namespace Rv32Sim

/-! ## The word that returns from a trap -/

theorem isaTable_leaveTrap : ∀ row ∈ isaTable, row.mnemonic.action = .leaveTrap →
    row.mask = BitVec.allOnes 32 ∧ row.key = mretWord := by
  decide

namespace Hart

theorem action_of_leaveTrap {h : Hart} {d : Decoded} (he : h.effect? d = some .leaveTrap) :
    d.mnemonic.action = .leaveTrap := by
  unfold effect? at he
  -- the one arm that leaves a trap has its kind of instruction as a hypothesis
  split at he <;> first | assumption | cases he

/-- One word returns from a trap. -/
theorem effect_eq_leaveTrap_iff (h : Hart) (w : Word) :
    h.effect (Decoder.standard.decode w) = .leaveTrap ↔ w = mretWord := by
  constructor
  · intro heffect
    cases hd : Decoder.standard.decode w with
    | none =>
      rw [hd] at heffect
      cases heffect
    | some d =>
      obtain ⟨e, he⟩ := effect?_of_decode h hd
      rw [hd, effect_of_effect? he] at heffect
      rw [heffect] at he
      have haction := action_of_leaveTrap he
      obtain ⟨row, hrow, -, haccepts, rfl⟩ | ⟨-, rfl⟩ := Decoder.decode_build_cases hd
      · obtain ⟨hmask, hkey⟩ := isaTable_leaveTrap row hrow haction
        rw [← hkey]
        exact (Row.accepts_iff_of_mask_allOnes hmask w).1 haccepts
      · cases haction
  · rintro rfl
    rw [Decoder.decode_mretWord]
    rfl

end Hart

/-! ## What an instruction does to mstatus -/

/-- Of all writes through addresses, those to its own change mstatus. -/
theorem CsrBank.mstatus_write (bank : CsrBank) (a : CsrAddress) (w : Word) :
    (bank.write a w).mstatus = if a = Csr.mstatus.address then w else bank.mstatus := by
  unfold write
  cases hc : Csr.ofAddress? a with
  | none =>
    have hne : a ≠ Csr.mstatus.address := by
      rintro rfl
      rw [Csr.ofAddress?_address] at hc
      cases hc
    rw [if_neg hne]
  | some c =>
    obtain rfl := Csr.ofAddress?_eq_some_iff.1 hc
    cases c with
    | mstatus =>
      rw [if_pos rfl]
      exact BitVec.and_allOnes
    | _ => rfl

namespace Hart

theorem mstatus_apply (h : Hart) (raw : Word) (e : Effect) :
    (h.apply raw e).csrs.mstatus =
      match e with
      | .raise _ | .illegal => h.csrs.mstatus.mstatusOnTrap
      | .leaveTrap => h.csrs.mstatus.mstatusOnReturn
      | .retire _ _ (.csrWrite a value) => (h.csrs.write a value).mstatus
      | .retire _ _ _ => h.csrs.mstatus := by
  cases e with
  | retire next result side => cases side <;> cases result <;> rfl
  | raise e => rfl
  | leaveTrap => rfl
  | illegal => rfl

/-- The value that a CSR instruction at mstatus computes, if the word is one. -/
def mstatusWrite? (h : Hart) (w : Word) : Option Word :=
  match w.access? with
  | some (.csr op immediate) =>
    if w.immI.setWidth 16 = Csr.mstatus.address then
      some (op.eval h.csrs.mstatus (h.csrOperand w immediate))
    else none
  | _ => none

/-- A CSR instruction leaves the value that it computes in mstatus, if it is at mstatus. -/
theorem mstatus_of_csrWrite {h : Hart} {w next : Word} {result : Option (Reg × Word)}
    {a : CsrAddress} {value : Word}
    (heffect : h.effect (Decoder.standard.decode w) = .retire next result (.csrWrite a value)) :
    (h.csrs.write a value).mstatus = (h.mstatusWrite? w).getD h.csrs.mstatus := by
  have hside := h.access?_of_side w
  rw [heffect] at hside
  obtain ⟨op, immediate, haccess⟩ := hside
  rw [h.effect_csr haccess, csrEffect] at heffect
  cases heffect
  rw [CsrBank.mstatus_write, mstatusWrite?, haccess]
  by_cases ha : w.immI.setWidth 16 = Csr.mstatus.address
  · -- there the old value that the operand is combined with is that of mstatus
    simp only [ha, if_true, Option.getD_some, CsrBank.read?, Csr.ofAddress?_address]
    rfl
  · simp only [ha, if_false, Option.getD_none]

theorem mstatusWrite?_eq_none {h : Hart} {w next : Word} {result : Option (Reg × Word)}
    {side : SideEffect} (heffect : h.effect (Decoder.standard.decode w) = .retire next result side)
    (hside : ∀ a value, side ≠ .csrWrite a value) : h.mstatusWrite? w = none := by
  unfold mstatusWrite?
  split
  next op immediate haccess =>
    rw [h.effect_csr haccess, csrEffect] at heffect
    cases heffect
    exact absurd rfl (hside _ _)
  next => rfl

/-- An instruction changes mstatus by raising an exception, by returning from a trap, or
    by writing to it. -/
theorem mstatus_dispatch (h : Hart) (w : Word) :
    (h.dispatch w).1.csrs.mstatus =
      match (h.dispatch w).2.exception with
      | some _ => h.csrs.mstatus.mstatusOnTrap
      | none =>
        if w = mretWord then h.csrs.mstatus.mstatusOnReturn
        else (h.mstatusWrite? w).getD h.csrs.mstatus := by
  have hreturn := h.effect_eq_leaveTrap_iff w
  rw [dispatch_hart, dispatch_exception, mstatus_apply]
  -- by the effect: of those that retire, only a write to a CSR can reach mstatus
  cases heffect : h.effect (Decoder.standard.decode w) with
  | raise e => rfl
  | illegal => rfl
  | leaveTrap =>
    show _ = if w = mretWord then _ else _
    rw [if_pos (hreturn.1 heffect)]
  | retire next result side =>
    have hnot : w ≠ mretWord := fun hw => by
      rw [hreturn.2 hw] at heffect
      cases heffect
    show _ = if w = mretWord then _ else _
    rw [if_neg hnot]
    cases side with
    | csrWrite a value => exact mstatus_of_csrWrite heffect
    | none => rw [mstatusWrite?_eq_none heffect nofun]; rfl
    | store a data size => rw [mstatusWrite?_eq_none heffect nofun]; rfl

/-! ## The enable -/

/-- The word puts the enable on: it returns from a trap that saved it, or it is a CSR
    instruction at mstatus whose value has it. -/
def SetsEnable (h : Hart) (w : Word) : Prop :=
  (w = mretWord ∧ h.csrs.mstatus.getLsbD mpieBit = true) ∨
    (h.mstatusWrite? w).any (·.getLsbD mieBit) = true

instance (h : Hart) (w : Word) : Decidable (h.SetsEnable w) :=
  inferInstanceAs (Decidable (_ ∨ _))

/-- A CSR instruction at mstatus retires, and is no return from a trap. -/
theorem retires_of_mstatusWrite? {h : Hart} {w value : Word}
    (hvalue : h.mstatusWrite? w = some value) :
    (h.dispatch w).2.exception = none ∧ w ≠ mretWord := by
  unfold mstatusWrite? at hvalue
  split at hvalue
  next op immediate haccess =>
    constructor
    · rw [dispatch_exception, h.effect_csr haccess]
      rfl
    · rintro rfl
      have hnone : mretWord.access? = none := by decide
      rw [hnone] at haccess
      cases haccess
  next => cases hvalue

/-- While the enable is off, only these words put it on. -/
theorem enable_dispatch_iff {h : Hart} (hoff : h.csrs.mstatus.getLsbD mieBit = false) (w : Word) :
    (h.dispatch w).1.csrs.mstatus.getLsbD mieBit = true ↔ h.SetsEnable w := by
  have hmstatus := h.mstatus_dispatch w
  have hreturned : h.csrs.mstatus.mstatusOnReturn.getLsbD mieBit =
      h.csrs.mstatus.getLsbD mpieBit := by
    rw [Word.getLsbD_mstatusOnReturn, if_neg (by decide), if_pos rfl]
  constructor
  · intro hon
    rw [hmstatus] at hon
    split at hon
    next =>
      -- entry to a trap puts the enable off
      rw [Word.getLsbD_mstatusOnTrap, if_pos rfl] at hon
      cases hon
    next =>
      split at hon
      next hw => exact Or.inl ⟨hw, hreturned.symm.trans hon⟩
      next =>
        refine Or.inr ?_
        cases hwrite : h.mstatusWrite? w with
        | none =>
          rw [hwrite, Option.getD_none, hoff] at hon
          cases hon
        | some value =>
          rw [hwrite, Option.getD_some] at hon
          exact hon
  · rintro (⟨rfl, hsaved⟩ | hwritten)
    · rw [dispatch_mretWord, leaveTrap_eq]
      exact hreturned.trans hsaved
    · cases hvalue : h.mstatusWrite? w with
      | none =>
        rw [hvalue] at hwritten
        cases hwritten
      | some value =>
        rw [hvalue] at hwritten
        obtain ⟨hexc, hw⟩ := retires_of_mstatusWrite? hvalue
        rw [hexc] at hmstatus
        rw [hmstatus, if_neg hw, hvalue]
        exact hwritten

/-- A word that raises an exception puts the enable off. -/
theorem enable_dispatch_of_exception {h : Hart} {w : Word}
    (hexc : (h.dispatch w).2.exception ≠ none) :
    (h.dispatch w).1.csrs.mstatus.getLsbD mieBit = false := by
  obtain ⟨e, he⟩ := Option.ne_none_iff_exists'.1 hexc
  rw [mstatus_dispatch, he]
  exact (Word.getLsbD_mstatusOnTrap _ _).trans (if_pos rfl)

end Hart

end Rv32Sim
