/-
  Rv32Sim.Proofs.Hart.Trap

  Entry to a trap and return from it, as equations between whole states, and
  the words that lead to them. A return straight after an entry undoes it but for
  what tells the handler why it runs (`leaveTrap_enterTrap`).
-/
import Rv32Sim.Proofs.Hart.Csr
import Rv32Sim.Proofs.Hart.Effect

namespace Rv32Sim

/-! ## The system words -/

namespace Decoder

theorem decode_ecallWord : standard.decode ecallWord = some ⟨.ecall, .none⟩ := by
  decide +kernel

theorem decode_ebreakWord : standard.decode ebreakWord = some ⟨.ebreak, .none⟩ := by
  decide +kernel

theorem decode_mretWord : standard.decode mretWord = some ⟨.mret, .none⟩ := by
  decide +kernel

end Decoder

/-- An exception takes no line down. -/
theorem Cause.and_not_line_exception (lines : Word) (e : Exception) :
    lines &&& ~~~(Cause.exception e).line = lines := by
  rw [Cause.line, BitVec.ofNat_eq_ofNat, BitVec.not_zero, BitVec.and_allOnes]

namespace Hart

/-! ## Entry and return -/

/-- The state after entry to a trap. -/
theorem enterTrap_eq (h : Hart) (cause : Cause) (trapValue : Word) :
    h.enterTrap cause trapValue =
      { h with
        csrs := { h.csrs with
          mepc := h.pc
          mcause := cause.value
          mtval := trapValue
          mstatus := h.csrs.mstatus.mstatusOnTrap
          interruptsEnabled := false }
        pc := h.csrs.mtvec
        inTrap := true
        pending := h.pending &&& ~~~cause.line } := by
  have hmie : h.csrs.mstatus.mstatusOnTrap.getLsbD mieBit = false := by
    rw [Word.getLsbD_mstatusOnTrap, if_pos rfl]
  unfold enterTrap
  simp only [CsrBank.set, hmie]

/-- The state after entry to a trap for an exception. -/
theorem enterTrap_exception (h : Hart) (e : Exception) (trapValue : Word) :
    h.enterTrap (.exception e) trapValue =
      { h with
        csrs := { h.csrs with
          mepc := h.pc
          mcause := BitVec.ofNat 32 e.code
          mtval := trapValue
          mstatus := h.csrs.mstatus.mstatusOnTrap
          interruptsEnabled := false }
        pc := h.csrs.mtvec
        inTrap := true } := by
  rw [enterTrap_eq, Cause.and_not_line_exception]
  rfl

/-- The state after return from a trap. -/
theorem leaveTrap_eq (h : Hart) :
    h.leaveTrap =
      { h with
        csrs := { h.csrs with
          mstatus := h.csrs.mstatus.mstatusOnReturn
          interruptsEnabled := h.csrs.mstatus.getLsbD mpieBit }
        pc := h.csrs.mepc
        inTrap := false } := by
  have hmie : h.csrs.mstatus.mstatusOnReturn.getLsbD mieBit =
      h.csrs.mstatus.getLsbD mpieBit := by
    rw [Word.getLsbD_mstatusOnReturn, if_neg (by decide), if_pos rfl]
  unfold leaveTrap
  simp only [CsrBank.set, hmie]

/-- Return straight after entry leaves the cause behind, clears bit 7 of mstatus, and
    restores the rest. -/
theorem leaveTrap_enterTrap {h : Hart} (hm : h.csrs.Mirrored) (cause : Cause)
    (trapValue : Word) :
    (h.enterTrap cause trapValue).leaveTrap =
      { h with
        csrs := { h.csrs with
          mepc := h.pc
          mcause := cause.value
          mtval := trapValue
          mstatus := h.csrs.mstatus.assignBit mpieBit false }
        inTrap := false
        pending := h.pending &&& ~~~cause.line } := by
  have hmpie : h.csrs.mstatus.mstatusOnTrap.getLsbD mpieBit = h.csrs.interruptsEnabled := by
    rw [Word.getLsbD_mstatusOnTrap, if_neg (by decide), if_pos rfl, hm]
  rw [leaveTrap_eq, enterTrap_eq]
  simp only [Word.mstatusOnReturn_mstatusOnTrap, hmpie]

/-- The return word leaves the trap handler. -/
theorem dispatch_mretWord (h : Hart) :
    h.dispatch mretWord =
      (h.leaveTrap.clearZero, ⟨h.pc, mretWord, some ⟨.mret, .none⟩, none⟩) := by
  unfold dispatch
  rw [Decoder.decode_mretWord]
  rfl

end Hart

end Rv32Sim
