/-
  Rv32Sim.Proofs.Hart.CsrQuery

  The CSR instructions that ask for no change. The hart reads the register and writes it
  all the same, through the register's mask; that the write changes nothing rests on what
  well-formed registers hold (`WellFormed.dispatch_csrQuery`).
-/
import Rv32Sim.Proofs.Hart.Access
import Rv32Sim.Proofs.Hart.WellFormed

namespace Rv32Sim

/-! ## Queries -/

/-- CSRRS and CSRRC with x0 and CSRRSI and CSRRCI with zero: every word of their opcode and
    one of their funct3, with the field that names x0 or holds the operand zero. -/
structure Word.IsCsrQuery (w : Word) : Prop where
  opcode : w.opcode = 0b1110011
  funct3 : w.funct3 ∈ [0b010#3, 0b011#3, 0b110#3, 0b111#3]
  rs1 : w.rs1 = 0

/-- To set no bit, or to clear none, is to keep the value. -/
theorem CsrOp.eval_zero {op : CsrOp} (hop : op ≠ .write) (old : Word) : op.eval old 0 = old := by
  cases op with
  | write => exact absurd rfl hop
  | set => exact BitVec.or_zero
  | clear =>
    show old &&& ~~~0#32 = old
    rw [BitVec.not_zero, BitVec.and_allOnes]

/-- A query sets bits or clears them. -/
theorem Word.IsCsrQuery.access? {w : Word} (hw : w.IsCsrQuery) :
    ∃ op immediate, op ≠ .write ∧ w.access? = some (.csr op immediate) := by
  have hfunct3 := hw.funct3
  simp only [List.mem_cons, List.not_mem_nil, or_false] at hfunct3
  unfold Word.access?
  rw [hw.opcode]
  rcases hfunct3 with h | h | h | h <;> rw [h]
  · exact ⟨.set, false, nofun, rfl⟩
  · exact ⟨.clear, false, nofun, rfl⟩
  · exact ⟨.set, true, nofun, rfl⟩
  · exact ⟨.clear, true, nofun, rfl⟩

namespace Hart

variable {h : Hart}

/-- The effect of a query: the value of the register, and the same value back. -/
theorem effect_csrQuery (hzero : h.regs.get Reg.zero = 0) {w : Word} (hw : w.IsCsrQuery) :
    let a := w.immI.setWidth 16
    let old := (h.csrs.read? a).getD 0
    h.effect (Decoder.standard.decode w) =
      .retire (h.pc + 4) (some (w.rd, old)) (.csrWrite a old) := by
  intro a old
  obtain ⟨op, immediate, hop, haccess⟩ := hw.access?
  -- the operand is zero, whether it is that of x0 or the field itself
  have hoperand : h.csrOperand w immediate = 0 := by
    unfold csrOperand
    rw [hw.rs1]
    cases immediate with
    | true => rfl
    | false => exact hzero
  rw [h.effect_csr haccess, hoperand, csrEffect, CsrOp.eval_zero hop]

/-- A query brings the value of the register and moves on; nothing else changes. -/
theorem WellFormed.dispatch_csrQuery (hwf : h.WellFormed) {w : Word} (hw : w.IsCsrQuery) :
    (h.dispatch w).1 =
      { h with
        pc := h.pc + 4
        regs := h.regs.put w.rd ((h.csrs.read? (w.immI.setWidth 16)).getD 0) } := by
  rw [dispatch_hart, effect_csrQuery hwf.zero hw, apply_result hwf.zero, Hart.applySide,
    Hart.writeCsr, hwf.csrs.write_read?]

end Hart

end Rv32Sim
