/-
  Rv32Sim.Proofs.Hart.Exception

  Exceptions are precise. Which words raise which exception is decided by the
  word alone: those of no known opcode, and two words of the system class. An
  instruction that raises leaves no other trace than the entry to its handler, and
  one that does nothing only moves on, both as long as x0, which the end of an instruction
  clears, is zero anyway.
-/
import Rv32Sim.Proofs.Hart.Trap

namespace Rv32Sim

namespace Hart

/-! ## Which words raise -/

/-- What a word raises, if it decodes. -/
theorem exception?_effect_of_decode (h : Hart) {w : Word} {d : Decoded}
    (hd : Decoder.standard.decode w = some d) :
    (h.effect (some d)).exception? = d.mnemonic.action.exception? := by
  obtain ⟨effect, he⟩ := effect?_of_decode h hd
  rw [effect_of_effect? he, exception?_of_effect? he]

/-- A word that decodes and raises is the one word of its exception. -/
theorem word?_of_decode {w : Word} {d : Decoded} {e : Exception}
    (hd : Decoder.standard.decode w = some d)
    (hraise : d.mnemonic.action.exception? = some e) : e.word? = some w := by
  obtain ⟨row, hrow, -, haccepts, rfl⟩ | ⟨-, rfl⟩ := Decoder.decode_build_cases hd
  · obtain ⟨hmask, hkey⟩ := isaTable_raises row hrow e e.mem_all hraise
    have hw : w = row.key := (Row.accepts_iff_of_mask_allOnes hmask w).1 haccepts
    rw [hkey, hw]
  · cases hraise

/-- The words of no known opcode are the illegal instructions. -/
theorem dispatch_illegal_iff (h : Hart) (w : Word) :
    (h.dispatch w).2.exception = some .illegalInstruction ↔
      ∀ row ∈ isaTable, row.opcode.toNat ≠ w.toNat % 128 := by
  rw [dispatch_exception, ← Decoder.decode_build_eq_none_iff]
  change _ ↔ Decoder.standard.decode w = none
  cases hd : Decoder.standard.decode w with
  | none => exact ⟨fun _ => rfl, fun _ => rfl⟩
  | some d =>
    rw [exception?_effect_of_decode h hd]
    constructor
    · intro hraise
      cases word?_of_decode hd hraise
    · intro hnone
      cases hnone

/-- Each of the other exceptions has one word that raises it. -/
theorem dispatch_exception_iff (h : Hart) {e : Exception} {d : Decoded} {word : Word}
    (hword : e.word? = some word) (hd : Decoder.standard.decode word = some d)
    (hraise : d.mnemonic.action.exception? = some e) (w : Word) :
    (h.dispatch w).2.exception = some e ↔ w = word := by
  rw [dispatch_exception]
  constructor
  · intro hexc
    cases hw : Decoder.standard.decode w with
    | none =>
      -- an illegal instruction is not raised by one word alone
      rw [hw] at hexc
      cases hexc
      cases hword
    | some d' =>
      rw [hw, exception?_effect_of_decode h hw] at hexc
      have heq := word?_of_decode hw hexc
      rw [hword] at heq
      exact (Option.some.inj heq).symm
  · intro hw
    rw [hw, hd, exception?_effect_of_decode h hd, hraise]

/-! ## What an exception leaves behind -/

/-- `h'` is the state after the word `w`, fetched in the state `h`, raised `e`: its
    handler is entered, and nothing else has happened. -/
structure RaisedIn (h : Hart) (w : Word) (e : Exception) (h' : Hart) : Prop where
  regs : h'.regs = h.regs
  bus : h'.bus = h.bus
  pending : h'.pending = h.pending
  csrs : ∀ c ∈ [Csr.misa, .mie, .mtvec, .mscratch, .mip], h'.csrs.get c = h.csrs.get c
  mepc : h'.csrs.mepc = h.pc
  mcause : h'.csrs.mcause =
    match e with
    | .illegalInstruction => 2
    | .environmentCall => 11
    | .breakpoint => 3
  mtval : h'.csrs.mtval = if e = .illegalInstruction then w else 0
  mstatus : ∀ j, j ≠ 3 → j ≠ 7 → h'.csrs.mstatus.getLsbD j = h.csrs.mstatus.getLsbD j
  savedEnable : h'.csrs.mstatus.getLsbD 7 = h.csrs.mstatus.getLsbD 3
  enable : h'.csrs.mstatus.getLsbD 3 = false
  enableCopy : h'.csrs.interruptsEnabled = false
  pc : h'.pc = h.csrs.mtvec
  inTrap : h'.inTrap = true

theorem raisedIn_enterTrap (h : Hart) (w : Word) (e : Exception) :
    RaisedIn h w e (h.enterTrap (.exception e) (e.trapValue w)) := by
  have hbit (j : Nat) := Word.getLsbD_mstatusOnTrap h.csrs.mstatus j
  rw [enterTrap_exception]
  exact {
    regs := rfl
    bus := rfl
    pending := rfl
    csrs := by
      intro c hc
      cases c <;> first | rfl | simp at hc
    mepc := rfl
    mcause := by cases e <;> rfl
    mtval := by cases e <;> rfl
    mstatus := fun j hmie hmpie => (hbit j).trans ((if_neg hmie).trans (if_neg hmpie))
    savedEnable := hbit 7
    enable := hbit 3
    enableCopy := rfl
    pc := rfl
    inTrap := rfl }

/-- A word that raises leaves the state of its exception behind, and x0 zero. -/
theorem raisedIn_dispatch {h : Hart} (hzero : h.regs.get Reg.zero = 0) {w : Word}
    {e : Exception} (hexc : (h.dispatch w).2.exception = some e) :
    RaisedIn h w e (h.dispatch w).1 := by
  rw [dispatch_exception] at hexc
  rw [dispatch_hart, apply_of_exception hexc w, execute_of_exception hzero hexc]
  exact raisedIn_enterTrap h w e

/-! ## Words that do nothing -/

/-- A word whose instruction does nothing only moves on. -/
theorem dispatch_of_nop {h : Hart} (hzero : h.regs.get Reg.zero = 0) {w : Word} {d : Decoded}
    (hd : Decoder.standard.decode w = some d) (hnop : d.mnemonic.action = .nop) :
    (h.dispatch w).1 = { h with pc := h.pc + 4 } := by
  rw [dispatch_of_effect? hd (effect?_of_action_nop h hnop), apply_side,
    RegFile.clearZero_of_zero hzero]
  rfl

/-- The opcode of FENCE. -/
def fenceOpcode : Nat := 0b0001111

theorem isaTable_fence : ∀ row ∈ isaTable, row.opcode.toNat = fenceOpcode →
    row.mnemonic.action = .nop := by
  decide

/-- Some row has the opcode of FENCE, so its words decode. -/
theorem exists_fence_row : ∃ row ∈ isaTable, row.opcode.toNat = fenceOpcode := by
  decide

theorem dispatch_of_fence {h : Hart} (hzero : h.regs.get Reg.zero = 0) {w : Word}
    (hw : w.toNat % 128 = fenceOpcode) : (h.dispatch w).1 = { h with pc := h.pc + 4 } := by
  cases hd : Decoder.standard.decode w with
  | none =>
    obtain ⟨row, hrow, hop⟩ := exists_fence_row
    exact absurd (hop.trans hw.symm) ((Decoder.decode_build_eq_none_iff _ w).1 hd row hrow)
  | some d =>
    apply dispatch_of_nop hzero hd
    obtain ⟨row, hrow, hop, -, rfl⟩ | ⟨-, rfl⟩ := Decoder.decode_build_cases hd
    · exact isaTable_fence row hrow (hop.trans hw)
    · rfl

/-- **Precise exceptions.** A step raises exactly what the word that it fetches calls
    for. As long as x0 is zero, it leaves nothing else behind when it raises, and only
    moves on past a word of a known opcode that no row accepts and past every word of the
    FENCE class. -/
theorem step_exception_precise (h : Hart) :
    let w := h.fetch
    let h' := h.step.1
    let record := h.step.2
    (record.exception = some .illegalInstruction ↔
      ∀ row ∈ isaTable, row.opcode.toNat ≠ w.toNat % 128) ∧
    (record.exception = some .environmentCall ↔ w = 0x00000073) ∧
    (record.exception = some .breakpoint ↔ w = 0x00100073) ∧
    record.pc = h.pc ∧ record.raw = w ∧
    (h.regs.get Reg.zero = 0 →
      (∀ e, record.exception = some e → RaisedIn h w e h') ∧
      ((∃ row ∈ isaTable, row.opcode.toNat = w.toNat % 128) →
        (∀ row ∈ isaTable, row.accepts w = false) → h' = { h with pc := h.pc + 4 }) ∧
      (w.toNat % 128 = fenceOpcode → h' = { h with pc := h.pc + 4 })) := by
  intro w h' record
  refine ⟨dispatch_illegal_iff h w, ?_, ?_, rfl, rfl, ?_⟩
  · exact dispatch_exception_iff h rfl Decoder.decode_ecallWord rfl w
  · exact dispatch_exception_iff h rfl Decoder.decode_ebreakWord rfl w
  · intro hzero
    refine ⟨?_, ?_, dispatch_of_fence hzero⟩
    · intro e hexc
      exact raisedIn_dispatch hzero hexc
    · intro hop haccepts
      exact dispatch_of_nop hzero (Decoder.decode_build_eq_reserved hop haccepts) rfl

/-- A word of all ones has no known opcode. -/
theorem step_exception_precise_of_ones :
    let h := Hart.reset (Rom.ofWords [0xFFFFFFFF]) .standard
    h.regs.get Reg.zero = 0 ∧ h.step.2.exception = some .illegalInstruction ∧
    RaisedIn h 0xFFFFFFFF .illegalInstruction h.step.1 := by
  intro h
  have hzero : h.regs.get Reg.zero = 0 := by decide
  have hfetch : h.fetch = 0xFFFFFFFF := by decide
  obtain ⟨illegal, -, -, -, -, trace⟩ := step_exception_precise h
  obtain ⟨raised, -, -⟩ := trace hzero
  have hexc : h.step.2.exception = some .illegalInstruction :=
    illegal.2 (by rw [hfetch]; decide)
  exact ⟨hzero, hexc, hfetch ▸ raised _ hexc⟩

end Hart

end Rv32Sim
