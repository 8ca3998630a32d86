/-
  Rv32Sim.Proofs.Hart.Registers

  The general registers through one instruction. An instruction writes at most the
  register that bits 11 to 7 of its word name (`dispatch_regs_of_ne`), and the branches,
  stores and system words write none (`dispatch_regs_of_writesNoRegister`). The register file
  keeps what is written to x0, and the end of every word that decodes clears it, also of one
  that raises an exception (`dispatch_zero_of_decode`). What an instruction does depends on
  the registers that it names as sources, and on no other (`effect?_withRegs`).
-/
import Rv32Sim.Proofs.Hart.Trap

namespace Rv32Sim

/-! ## Results -/

/-- The register result of an effect. -/
def Effect.result? : Effect → Option (Reg × Word)
  | retire _ result _ => result
  | raise _ => none
  | leaveTrap => none
  | illegal => none

/-- Whether instructions of a kind have a register result. -/
def Action.hasResult : Action → Bool
  | .arith _ => true
  | .branch _ => false
  | .load _ _ => true
  | .store _ => false
  | .loadUpper => true
  | .addUpper => true
  | .jump => true
  | .jumpRegister => true
  | .csr _ _ => true
  | .raise _ => false
  | .leaveTrap => false
  | .nop => false

/-- The destination that operands name. -/
def Operands.rd? : Operands → Option Reg
  | none => .none
  | r _ _ rd => rd
  | i _ rd _ => rd
  | s _ _ _ => .none
  | b _ _ _ => .none
  | u rd _ => rd
  | j rd _ => rd

theorem Operands.eq_rd_of_rd? {m : Mnemonic} {w : Word} {f : Format} {rd : Reg}
    (hrd : (ofWord m w f).rd? = some rd) : rd = w.rd := by
  cases f <;> cases hrd <;> rfl

/-- The words of the branches, of the stores, of FENCE, of the three system instructions,
    and every word that no row of its opcode accepts, be it illegal or reserved. -/
def Word.WritesNoRegister (w : Word) : Prop :=
  w.opcode ∈ [0b1100011#7, 0b0100011#7, 0b0001111#7] ∨
  w ∈ [ecallWord, ebreakWord, mretWord] ∨
  ∀ row ∈ isaTable, row.opcode.toNat = w.toNat % 128 → row.accepts w = false

instance (w : Word) : Decidable w.WritesNoRegister := inferInstanceAs (Decidable (_ ∨ _ ∨ _))

theorem isaTable_writesNoRegister : ∀ row ∈ isaTable,
    row.opcode.toNat ∈ [0b1100011, 0b0100011, 0b0001111] →
      row.mnemonic.action.hasResult = false := by
  decide

theorem hasResult_of_writesNoRegister {w : Word} {d : Decoded} (hw : w.WritesNoRegister)
    (hd : Decoder.standard.decode w = some d) : d.mnemonic.action.hasResult = false := by
  rcases hw with hop | hsystem | hnone
  · obtain ⟨row, hrow, hrowop, -, rfl⟩ | ⟨-, rfl⟩ := Decoder.decode_build_cases hd
    · -- all rows of these opcodes are of kinds without a result
      apply isaTable_writesNoRegister row hrow
      rw [hrowop, ← Word.toNat_opcode]
      exact List.mem_map_of_mem (f := BitVec.toNat) hop
    · rfl
  · have hresult : (Decoder.standard.decode w).map (·.mnemonic.action.hasResult) =
        some false := by
      simp only [List.mem_cons, List.not_mem_nil, or_false] at hsystem
      rcases hsystem with rfl | rfl | rfl
      · rw [Decoder.decode_ecallWord]; rfl
      · rw [Decoder.decode_ebreakWord]; rfl
      · rw [Decoder.decode_mretWord]; rfl
    rw [hd] at hresult
    exact Option.some.inj hresult
  · obtain ⟨row, hrow, hrowop, haccepts, rfl⟩ | ⟨-, rfl⟩ := Decoder.decode_build_cases hd
    · rw [hnone row hrow hrowop] at haccepts
      cases haccepts
    · rfl

namespace Hart

variable {h : Hart}

theorem result?_of_hasResult {d : Decoded} {e : Effect} (he : h.effect? d = some e)
    (hresult : d.mnemonic.action.hasResult = false) : e.result? = none := by
  unfold effect? at he
  -- the arms with a result are those of the kinds that have one
  split at he <;> cases he <;> first | rfl | (simp [*, Action.hasResult] at hresult)

theorem rd?_of_result? {d : Decoded} {e : Effect} (he : h.effect? d = some e) {rd : Reg}
    {value : Word} (hresult : e.result? = some (rd, value)) : d.operands.rd? = some rd := by
  unfold effect? at he
  split at he <;> cases he <;> cases hresult <;> simp [*, Operands.rd?]

/-! ## The end of an instruction -/

/-- Whatever an effect leaves in x0, zero is there when its instruction is over. -/
theorem execute_zero (h : Hart) {e : Effect} (he : e ≠ .illegal) :
    (h.execute e).regs.get Reg.zero = 0 := by
  have hclear := (h.perform e).regs.get_zero_clearZero
  cases e with
  | illegal => exact absurd rfl he
  | _ => exact hclear

/-- An instruction is no illegal one. -/
theorem ne_illegal_of_effect? {d : Decoded} {e : Effect} (he : h.effect? d = some e) :
    e ≠ .illegal := by
  rintro rfl
  unfold effect? at he
  split at he <;> cases he

/-- Entry to a trap keeps the registers as the instruction leaves them. -/
theorem regs_apply (h : Hart) (raw : Word) (e : Effect) :
    (h.apply raw e).regs = (h.execute e).regs := by
  unfold apply
  split <;> rfl

/-- A word that decodes leaves x0 zero, whatever stood there and also if it raises an
    exception. -/
theorem dispatch_zero_of_decode (h : Hart) {w : Word} {d : Decoded}
    (hd : Decoder.standard.decode w = some d) : (h.dispatch w).1.regs.get Reg.zero = 0 := by
  obtain ⟨e, he⟩ := effect?_of_decode h hd
  rw [dispatch_of_effect? hd he, regs_apply, execute_zero h (ne_illegal_of_effect? he)]

/-- x0 stays zero: a word that does not decode is not executed, and leaves it as it is. -/
theorem dispatch_zero (hzero : h.regs.get Reg.zero = 0) (w : Word) :
    (h.dispatch w).1.regs.get Reg.zero = 0 := by
  cases hd : Decoder.standard.decode w with
  | none =>
    rw [dispatch_hart, hd, regs_apply]
    exact hzero
  | some d => exact h.dispatch_zero_of_decode hd

/-! ## One instruction -/

theorem apply_regs (hzero : h.regs.get Reg.zero = 0) (raw : Word) (e : Effect) :
    (h.apply raw e).regs =
      match e.result? with
      | some (rd, value) => h.regs.put rd value
      | none => h.regs := by
  have hclear := RegFile.clearZero_of_zero hzero
  cases e with
  | retire next result side =>
    cases result with
    | none => rw [apply_side, hclear]; rfl
    | some result => rw [apply_result hzero]; rfl
  | raise e => exact hclear
  | leaveTrap => exact hclear
  | illegal => rfl

/-- The registers after an instruction: as before, or with a result in the register that
    the word names, unless that is x0. -/
theorem dispatch_regs (hzero : h.regs.get Reg.zero = 0) (w : Word) :
    (h.dispatch w).1.regs = h.regs ∨
      ¬w.WritesNoRegister ∧ ∃ value, (h.dispatch w).1.regs = h.regs.put w.rd value := by
  rw [dispatch_hart, apply_regs hzero]
  cases hd : Decoder.standard.decode w with
  | none => exact Or.inl rfl
  | some d =>
    obtain ⟨e, he⟩ := effect?_of_decode h hd
    rw [effect_of_effect? he]
    cases hresult : e.result? with
    | none => exact Or.inl rfl
    | some result =>
      obtain ⟨rd, value⟩ := result
      -- the operands of the decoded word name the register that the word names
      have hrd : rd = w.rd := by
        have hoperands := rd?_of_result? he hresult
        obtain ⟨row, -, -, -, rfl⟩ | ⟨-, rfl⟩ := Decoder.decode_build_cases hd
        · exact Operands.eq_rd_of_rd? hoperands
        · cases hoperands
      have hwrites : ¬w.WritesNoRegister := fun hnone => by
        rw [result?_of_hasResult he (hasResult_of_writesNoRegister hnone hd)] at hresult
        cases hresult
      exact Or.inr ⟨hwrites, value, by rw [hrd]⟩

theorem dispatch_regs_of_writesNoRegister (hzero : h.regs.get Reg.zero = 0) {w : Word}
    (hw : w.WritesNoRegister) : (h.dispatch w).1.regs = h.regs := by
  rcases dispatch_regs hzero w with hregs | ⟨hwrites, -⟩
  · exact hregs
  · exact absurd hw hwrites

theorem dispatch_regs_of_ne (hzero : h.regs.get Reg.zero = 0) (w : Word) {r : Reg}
    (hr : r ≠ w.rd) : (h.dispatch w).1.regs.get r = h.regs.get r := by
  rcases dispatch_regs hzero w with hregs | ⟨-, value, hregs⟩
  · rw [hregs]
  · rw [hregs, RegFile.get_put_of_ne hr]

theorem takeInterrupt_regs (h : Hart) : h.takeInterrupt.1.regs = h.regs := by
  unfold takeInterrupt
  split <;> rfl

/-! ## Sources -/

/-- The state with other general registers. -/
def withRegs (h : Hart) (regs : RegFile) : Hart := { h with regs }

end Hart

/-- The registers that an instruction names as its sources. The field of a CSR instruction
    with an immediate names none. -/
def Decoded.sources (d : Decoded) : List Reg :=
  match d.mnemonic.action, d.operands with
  | .csr _ true, _ => []
  | _, .r rs1 rs2 _ => [rs1, rs2]
  | _, .i rs1 _ _ => [rs1]
  | _, .s rs1 rs2 _ => [rs1, rs2]
  | _, .b rs1 rs2 _ => [rs1, rs2]
  | _, _ => []

namespace Hart

variable {h : Hart}

/-- Registers that are not sources do not matter. -/
theorem effect?_withRegs {d : Decoded} {regs : RegFile}
    (hregs : ∀ r ∈ d.sources, regs.get r = h.regs.get r) :
    (h.withRegs regs).effect? d = h.effect? d := by
  unfold Decoded.sources at hregs
  unfold effect?
  -- each arm reads the sources of its operands; what else it reads is the same
  split <;> simp_all [withRegs, writing, csrEffect, loaded]

end Hart

end Rv32Sim
