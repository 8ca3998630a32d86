/-
  Rv32Sim.Proofs.Hart.CsrModify

  The CSR instructions as reads, modifications and writes of one register. The six words say
  in the same way where the old value goes and which register is written; they differ in how
  the operand is found and how it is combined with the old value. What the register then
  holds is its own matter (`Csr.accept`), and the host's write to its address ends in the
  same bank (`csr_read_modify_write`).
-/
import Rv32Sim.Board.Basic
import Rv32Sim.Proofs.Hart.Csr
import Rv32Sim.Proofs.Hart.Exception
import Rv32Sim.Proofs.Hart.Retire

namespace Rv32Sim

/-! ## Writes to one register -/

theorem Csr.ofAddress?_eq_none {a : CsrAddress} (ha : ∀ c : Csr, c.address ≠ a) :
    ofAddress? a = none := by
  cases hc : ofAddress? a with
  | none => rfl
  | some c => exact absurd (ofAddress?_eq_some_iff.1 hc) (ha c)

/-- What a register holds when software has written `w` over `old`: mtvec drops the two lowest
    bits and mepc the lowest, misa keeps its value, and the others take the word as it is. -/
def Csr.accept : Csr → Word → Word → Word
  | misa, old, _ => old
  | mtvec, _, w => w.extractLsb' 2 30 ++ 0#2
  | mepc, _, w => w.extractLsb' 1 31 ++ 0#1
  | _, _, w => w

/-- To clear the low bits of a word is to drop them and put zeros in their place. -/
theorem Word.and_not_low (w : Word) {m k : Nat} (h : m + k = 32) :
    w &&& ~~~(BitVec.ofNat 32 (2 ^ k - 1)) = (w.extractLsb' k m ++ 0#k).cast h := by
  apply BitVec.eq_of_getLsbD_eq
  intro i hi
  rw [BitVec.getLsbD_and, BitVec.getLsbD_not, BitVec.getLsbD_ofNat, Nat.testBit_two_pow_sub_one,
    BitVec.getLsbD_cast, BitVec.getLsbD_append, BitVec.getLsbD_extractLsb', BitVec.getLsbD_zero]
  by_cases hk : i < k
  · simp only [hk, hi, decide_true, Bool.and_self, Bool.not_true, Bool.and_false, if_true]
  · have hm : i - k < m := by omega
    have hback : k + (i - k) = i := by omega
    simp only [hk, hi, hm, hback, decide_true, decide_false, Bool.and_false, Bool.not_false,
      Bool.and_true, Bool.true_and, if_false]

namespace CsrBank

/-- A write to the address of a register is seen by that register, which accepts what it can. -/
theorem write_address (bank : CsrBank) (c : Csr) (w : Word) :
    bank.write c.address w = bank.set c (c.accept (bank.get c) w) := by
  unfold write
  rw [Csr.ofAddress?_address]
  cases c with
  | misa => rfl
  | mtvec => exact congrArg (bank.set .mtvec) (w.and_not_low (k := 2) rfl)
  | mepc => exact congrArg (bank.set .mepc) (w.and_not_low (k := 1) rfl)
  | _ => exact congrArg (bank.set _) BitVec.and_allOnes

theorem read?_address (bank : CsrBank) (c : Csr) : bank.read? c.address = some (bank.get c) := by
  rw [read?, Csr.ofAddress?_address, Option.map_some]

theorem write_of_ne (bank : CsrBank) {a : CsrAddress} (ha : ∀ c : Csr, c.address ≠ a) (w : Word) :
    bank.write a w = bank := by
  rw [write, Csr.ofAddress?_eq_none ha]

theorem read?_of_ne (bank : CsrBank) {a : CsrAddress} (ha : ∀ c : Csr, c.address ≠ a) :
    bank.read? a = none := by
  rw [read?, Csr.ofAddress?_eq_none ha, Option.map_none]

end CsrBank

/-! ## Words -/

/-- The row of a CSR instruction, with its operand in a register or in the word itself. -/
def csrRow : CsrOp → Bool → Row
  | .write, false => .ofFields .csrrw .i 0b1110011 [0b001]
  | .set, false => .ofFields .csrrs .i 0b1110011 [0b010]
  | .clear, false => .ofFields .csrrc .i 0b1110011 [0b011]
  | .write, true => .ofFields .csrrwi .i 0b1110011 [0b101]
  | .set, true => .ofFields .csrrsi .i 0b1110011 [0b110]
  | .clear, true => .ofFields .csrrci .i 0b1110011 [0b111]

/-- The word of a CSR instruction. An immediate operand stands in the place of `rs1`. -/
def csrWord (op : CsrOp) (immediate : Bool) (rd rs1 : Reg) (a : BitVec 12) : Word :=
  (csrRow op immediate).assemble (.i rs1 rd a)

namespace Decoder

theorem decode_csrWord (op : CsrOp) (immediate : Bool) (rd rs1 : Reg) (a : BitVec 12) :
    standard.decode (csrWord op immediate rd rs1 a) =
      some ⟨(csrRow op immediate).mnemonic, .i rs1 rd a⟩ := by
  have hrow : csrRow op immediate ∈ isaTable := by cases op <;> cases immediate <;> decide
  apply decode_assemble hrow
  cases op <;> cases immediate <;> exact fun hshift => nomatch hshift

-- CSRRS x12, mtvec, x6 and CSRRWI x11, mcause, 5
example :
    csrWord .set false 12 6 0x305 = 0x30532673 ∧ csrWord .write true 11 5 0x342 = 0x3422D5F3 := by
  decide

end Decoder

namespace Hart

variable {h : Hart}

theorem effect?_csrWord (h : Hart) (op : CsrOp) (immediate : Bool) (rd rs1 : Reg)
    (a : BitVec 12) :
    h.effect? ⟨(csrRow op immediate).mnemonic, .i rs1 rd a⟩ =
      some (h.csrEffect op rd (a.setWidth 16)
        (if immediate then rs1.setWidth 32 else h.regs.get rs1)) := by
  cases op <;> cases immediate <;> rfl

/-- A CSR instruction brings the old value to its register, writes to the address, goes on,
    and does nothing else. -/
theorem dispatch_csrWord (hzero : h.regs.get Reg.zero = 0) (op : CsrOp) (immediate : Bool)
    (rd rs1 : Reg) (a : BitVec 12) :
    let operand := if immediate then rs1.setWidth 32 else h.regs.get rs1
    let old := (h.csrs.read? (a.setWidth 16)).getD 0
    (h.dispatch (csrWord op immediate rd rs1 a)).1 =
      { h with
        pc := h.pc + 4
        regs := h.regs.put rd old
        csrs := h.csrs.write (a.setWidth 16) (op.eval old operand) } := by
  intro operand old
  rw [dispatch_of_effect? (Decoder.decode_csrWord op immediate rd rs1 a)
    (h.effect?_csrWord op immediate rd rs1 a), csrEffect, apply_result hzero]
  rfl

/-- At the address of a register it is this register that is read, modified and written. -/
theorem dispatch_csrWord_of_address (hzero : h.regs.get Reg.zero = 0) (op : CsrOp)
    (immediate : Bool) (rd rs1 : Reg) {a : BitVec 12} {c : Csr} (hc : c.address = a.setWidth 16) :
    let operand := if immediate then rs1.setWidth 32 else h.regs.get rs1
    let old := h.csrs.get c
    (h.dispatch (csrWord op immediate rd rs1 a)).1 =
      { h with
        pc := h.pc + 4
        regs := h.regs.put rd old
        csrs := h.csrs.set c (c.accept old (op.eval old operand)) } := by
  intro operand old
  have hold : (h.csrs.read? (a.setWidth 16)).getD 0 = old := by
    rw [← hc, h.csrs.read?_address, Option.getD_some]
  rw [dispatch_csrWord hzero op immediate rd rs1 a, hold, ← hc, CsrBank.write_address]

/-- At an address without a register zero is read and nothing is written. -/
theorem dispatch_csrWord_of_ne (hzero : h.regs.get Reg.zero = 0) (op : CsrOp)
    (immediate : Bool) (rd rs1 : Reg) {a : BitVec 12}
    (hnone : ∀ c : Csr, c.address ≠ a.setWidth 16) :
    (h.dispatch (csrWord op immediate rd rs1 a)).1 =
      { h with pc := h.pc + 4, regs := h.regs.put rd 0 } := by
  rw [dispatch_csrWord hzero op immediate rd rs1 a, h.csrs.read?_of_ne hnone, Option.getD_none,
    h.csrs.write_of_ne hnone]

theorem exception_csrWord (h : Hart) (op : CsrOp) (immediate : Bool) (rd rs1 : Reg)
    (a : BitVec 12) : (h.dispatch (csrWord op immediate rd rs1 a)).2.exception = none := by
  rw [dispatch_exception, Decoder.decode_csrWord,
    effect_of_effect? (h.effect?_csrWord op immediate rd rs1 a)]
  rfl

/-- **One read, one modification, one write.** Each of the six CSR instructions brings the old
    value of the register at its address to `rd`, unless that is x0, and leaves in the
    register what it accepts of the operand, or of the old value with the operand's bits set
    or cleared; the operand is that of the state before, also if it comes from `rd`. No other
    register of the bank changes, and the host's write of the same value ends in the same
    bank. At an address without a register zero is brought and nothing is written. None of
    them raises an exception or spoils the copy of the enable, and all else is as before but
    for the address of the next instruction. -/
theorem csr_read_modify_write (h : Hart) (hzero : h.regs.get Reg.zero = 0) (op : CsrOp)
    (immediate : Bool) (rd rs1 : Reg) (a : BitVec 12) :
    let address : CsrAddress := a.setWidth 16
    let operand := if immediate then rs1.setWidth 32 else h.regs.get rs1
    let h' := (h.dispatch (csrWord op immediate rd rs1 a)).1
    (∀ c : Csr, c.address = address →
      let old := h.csrs.get c
      let value :=
        match op with
        | .write => operand
        | .set => old ||| operand
        | .clear => old &&& ~~~operand
      h' = { h with pc := h.pc + 4, regs := h.regs.put rd old, csrs := h'.csrs } ∧
      h'.csrs.get c = c.accept old value ∧
      (∀ d : Csr, d ≠ c → h'.csrs.get d = h.csrs.get d) ∧
      ∀ b : Board, b.hart = h → (b.writeCsr address value).hart.csrs = h'.csrs) ∧
    ((∀ c : Csr, c.address ≠ address) →
      h' = { h with pc := h.pc + 4, regs := h.regs.put rd 0 } ∧
      ∀ (b : Board) (value : Word), b.hart = h →
        (b.writeCsr address value).hart.csrs = h'.csrs) ∧
    (h.csrs.Mirrored → h'.csrs.Mirrored) ∧
    (h.dispatch (csrWord op immediate rd rs1 a)).2.exception = none := by
  intro address operand h'
  refine ⟨?_, ?_, ?_, h.exception_csrWord op immediate rd rs1 a⟩
  · intro c hc old value
    have hvalue : op.eval old operand = value := by cases op <;> rfl
    have hdispatch : h' = _ := dispatch_csrWord_of_address hzero op immediate rd rs1 hc
    have hcsrs : h'.csrs = h.csrs.set c (c.accept old value) := by
      rw [hdispatch, ← hvalue]
    refine ⟨?_, ?_, ?_, ?_⟩
    · rw [hdispatch]
    · rw [hcsrs, CsrBank.get_set, if_pos rfl]
    · intro d hd
      rw [hcsrs, CsrBank.get_set, if_neg hd]
    · intro b hb
      rw [hcsrs, ← CsrBank.write_address, hc, ← hb]
      rfl
  · intro hnone
    have hdispatch : h' = _ := dispatch_csrWord_of_ne hzero op immediate rd rs1 hnone
    refine ⟨hdispatch, ?_⟩
    intro b value hb
    rw [hdispatch, ← hb]
    exact b.hart.csrs.write_of_ne hnone value
  · intro hmirrored
    have hdispatch : h' = _ := dispatch_csrWord hzero op immediate rd rs1 a
    rw [hdispatch]
    exact hmirrored.write address _

/-- A register that is source and destination at once: mtvec is set with its old value, of
    which it accepts all but the two lowest bits; and behind an address without a register
    zero comes in the place of the operand. -/
theorem csr_read_modify_write_of_alias :
    let h := { Hart.reset .empty .standard with regs := RegFile.zeros.set 1 0x203 }
    let h' := (h.dispatch (csrWord .set false 1 1 0x305)).1
    h.regs.get Reg.zero = 0 ∧
    h' = { h with pc := h.pc + 4, regs := h.regs.set 1 0x100, csrs := h'.csrs } ∧
    h'.csrs.mtvec = 0x300 ∧ h'.csrs.misa = h.csrs.misa ∧
    (∀ b : Board, b.hart = h → (b.writeCsr 0x305 0x303).hart.csrs = h'.csrs) ∧
    (h.dispatch (csrWord .clear false 1 1 0x7C0)).1 =
      { h with pc := h.pc + 4, regs := h.regs.set 1 0 } ∧
    (h.dispatch (csrWord .write true 0 8 0x300)).1.csrs.Mirrored := by
  intro h h'
  have hzero : h.regs.get Reg.zero = 0 := by decide
  obtain ⟨hpresent, -⟩ := csr_read_modify_write h hzero .set false 1 1 0x305
  obtain ⟨hframe, hvalue, hothers, hhost⟩ := hpresent .mtvec rfl
  obtain ⟨-, habsent, -⟩ := csr_read_modify_write h hzero .clear false 1 1 0x7C0
  obtain ⟨-, -, hmirrored, -⟩ := csr_read_modify_write h hzero .write true 0 8 0x300
  have hset : h.csrs.get .mtvec ||| h.regs.get 1 = 0x303 := by decide
  have hwritten : ∀ b : Board, b.hart = h →
      (b.writeCsr 0x305 (h.csrs.get .mtvec ||| h.regs.get 1)).hart.csrs = h'.csrs := hhost
  rw [hset] at hwritten
  have hnone : ∀ c : Csr, c.address ≠ (0x7C0 : BitVec 12).setWidth 16 := by
    intro c
    cases c <;> decide
  exact ⟨hzero, hframe, hvalue.trans (by decide), hothers .misa nofun, hwritten, (habsent hnone).1,
    hmirrored .initial⟩

end Hart

end Rv32Sim
