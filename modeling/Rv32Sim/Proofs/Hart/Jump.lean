/-
  Rv32Sim.Proofs.Hart.Jump

  Where branches and jumps go. An offset is an integer that the word holds in pieces; it comes
  back from its field with its sign and is added to an address modulo `2 ^ 32`, so that a target
  may lie across either end of the address space. JALR reads its base before it writes the
  link, which may go to the same register.
-/
import Rv32Sim.Proofs.Hart.Retire

namespace Rv32Sim

/-! ## Conditions -/

namespace Comparison

/-- The branch on a condition. -/
def mnemonic : Comparison → Mnemonic
  | eq => .beq
  | ne => .bne
  | lt => .blt
  | ge => .bge
  | ltu => .bltu
  | geu => .bgeu

/-- The field of the word that tells the branches apart. -/
def funct3 : Comparison → Word
  | eq => 0b000
  | ne => 0b001
  | lt => 0b100
  | ge => 0b101
  | ltu => 0b110
  | geu => 0b111

/-- A condition on the integers that two words stand for. -/
def Compares (c : Comparison) (a b : Word) : Prop :=
  match c with
  | eq => a.toNat = b.toNat
  | ne => a.toNat ≠ b.toNat
  | lt => a.toInt < b.toInt
  | ge => b.toInt ≤ a.toInt
  | ltu => a.toNat < b.toNat
  | geu => b.toNat ≤ a.toNat

instance (c : Comparison) (a b : Word) : Decidable (c.Compares a b) :=
  match c with
  | eq => inferInstanceAs (Decidable (a.toNat = b.toNat))
  | ne => inferInstanceAs (Decidable (a.toNat ≠ b.toNat))
  | lt => inferInstanceAs (Decidable (a.toInt < b.toInt))
  | ge => inferInstanceAs (Decidable (b.toInt ≤ a.toInt))
  | ltu => inferInstanceAs (Decidable (a.toNat < b.toNat))
  | geu => inferInstanceAs (Decidable (b.toNat ≤ a.toNat))

/-- The condition of the branch that is taken when the one on `c` is not. -/
def opposite : Comparison → Comparison
  | eq => ne
  | ne => eq
  | lt => ge
  | ge => lt
  | ltu => geu
  | geu => ltu

theorem holds_iff (c : Comparison) (a b : Word) : c.holds a b = true ↔ c.Compares a b := by
  cases c with
  | eq => exact beq_iff_eq.trans BitVec.toNat_inj.symm
  | ne => exact bne_iff_ne.trans (not_congr BitVec.toNat_inj.symm)
  | lt => exact BitVec.slt_iff_toInt_lt
  | ge => exact BitVec.sle_iff_toInt_le
  | ltu => exact BitVec.ult_iff_toNat_lt
  | geu => exact BitVec.ule_iff_toNat_le

theorem compares_opposite (c : Comparison) (a b : Word) :
    c.opposite.Compares a b ↔ ¬c.Compares a b := by
  cases c with
  | eq => exact Iff.rfl
  | ne => exact not_not.symm
  | lt => exact not_lt.symm
  | ge => exact not_le.symm
  | ltu => exact not_lt.symm
  | geu => exact not_le.symm

end Comparison

/-! ## Words -/

/-- The word of a branch by an even offset. -/
def branchWord (c : Comparison) (rs1 rs2 : Reg) (offset : Int) : Word :=
  (Row.ofFields c.mnemonic .b 0b1100011 [c.funct3]).assemble (.b rs1 rs2 (.ofInt 13 offset))

/-- The word of JAL by an even offset. -/
def jalWord (rd : Reg) (offset : Int) : Word :=
  (Row.ofFields .jal .j 0b1101111 []).assemble (.j rd (.ofInt 21 offset))

/-- The word of JALR to an offset from a register. -/
def jalrWord (rd rs1 : Reg) (offset : Int) : Word :=
  (Row.ofFields .jalr .i 0b1100111 [0b000]).assemble (.i rs1 rd (.ofInt 12 offset))

/-- The word of AUIPC with the upper twenty bits of its immediate. -/
def auipcWord (rd : Reg) (upper : BitVec 20) : Word :=
  (Row.ofFields .auipc .u 0b0010111 []).assemble (.u rd (upper ++ 0#12))

/-- The number that an upper immediate stands for. -/
theorem toNat_append_zero (upper : BitVec 20) : (upper ++ 0#12).toNat = 4096 * upper.toNat := by
  rw [BitVec.toNat_append, BitVec.toNat_zero, Nat.or_zero, Nat.shiftLeft_eq, Nat.mul_comm]

namespace Decoder

theorem decode_branchWord (c : Comparison) (rs1 rs2 : Reg) {offset : Int} (heven : 2 ∣ offset) :
    standard.decode (branchWord c rs1 rs2 offset) =
      some ⟨c.mnemonic, .b rs1 rs2 (.ofInt 13 offset)⟩ := by
  have hrow : Row.ofFields c.mnemonic .b 0b1100011 [c.funct3] ∈ isaTable := by
    cases c <;> decide
  exact decode_assemble hrow (Word.getLsbD_ofInt_zero (by decide) heven)

-- the scattered offset of a branch back: BNE x6, x12, -112
example : branchWord .ne 6 12 (-112) = 0xF8C318E3 := by decide

theorem decode_jalWord (rd : Reg) {offset : Int} (heven : 2 ∣ offset) :
    standard.decode (jalWord rd offset) = some ⟨.jal, .j rd (.ofInt 21 offset)⟩ :=
  decode_assemble (by decide) (Word.getLsbD_ofInt_zero (by decide) heven)

theorem decode_jalrWord (rd rs1 : Reg) (offset : Int) :
    standard.decode (jalrWord rd rs1 offset) = some ⟨.jalr, .i rs1 rd (.ofInt 12 offset)⟩ :=
  decode_assemble (by decide) (fun hshift => nomatch hshift)

theorem decode_auipcWord (rd : Reg) (upper : BitVec 20) :
    standard.decode (auipcWord rd upper) = some ⟨.auipc, .u rd (upper ++ 0#12)⟩ := by
  apply decode_assemble (by decide)
  show 4096 ∣ (upper ++ 0#12).toNat
  exact ⟨upper.toNat, toNat_append_zero upper⟩

end Decoder

namespace Hart

variable {h : Hart}

/-- A branch goes by its offset if its condition holds, and on if not. -/
theorem dispatch_branchWord (hzero : h.regs.get Reg.zero = 0) (c : Comparison) (rs1 rs2 : Reg)
    {offset : Int} (heven : 2 ∣ offset) (hlow : -4096 ≤ offset) (hhigh : offset ≤ 4094) :
    (h.dispatch (branchWord c rs1 rs2 offset)).1 =
      { h with
        pc :=
          if c.Compares (h.regs.get rs1) (h.regs.get rs2) then
            BitVec.ofInt 32 (h.pc.toNat + offset)
          else h.pc + 4 } := by
  have haction : c.mnemonic.action = .branch c := by cases c <;> rfl
  have htarget : h.pc + (BitVec.ofInt 13 offset).signExtend 32 =
      BitVec.ofInt 32 (h.pc.toNat + offset) :=
    Word.add_signExtend_ofInt (by decide) h.pc hlow (by omega)
  have heffect : h.effect? ⟨c.mnemonic, .b rs1 rs2 (.ofInt 13 offset)⟩ =
      some (.retire
        (if c.Compares (h.regs.get rs1) (h.regs.get rs2) then
          BitVec.ofInt 32 (h.pc.toNat + offset) else h.pc + 4) none .none) := by
    rw [effect?, haction, ← htarget]
    simp only [Comparison.holds_iff]
  rw [dispatch_of_effect? (Decoder.decode_branchWord c rs1 rs2 heven) heffect, apply_side,
    RegFile.clearZero_of_zero hzero]
  rfl

theorem dispatch_jalWord (hzero : h.regs.get Reg.zero = 0) (rd : Reg) {offset : Int}
    (heven : 2 ∣ offset) (hlow : -2 ^ 20 ≤ offset) (hhigh : offset ≤ 2 ^ 20 - 2) :
    (h.dispatch (jalWord rd offset)).1 =
      { h with
        pc := BitVec.ofInt 32 (h.pc.toNat + offset)
        regs := h.regs.put rd (h.pc + 4) } := by
  have htarget : h.pc + (BitVec.ofInt 21 offset).signExtend 32 =
      BitVec.ofInt 32 (h.pc.toNat + offset) :=
    Word.add_signExtend_ofInt (by decide) h.pc hlow (by omega)
  rw [← htarget]
  exact dispatch_of_result hzero (Decoder.decode_jalWord rd heven) rfl

theorem dispatch_jalrWord (hzero : h.regs.get Reg.zero = 0) (rd rs1 : Reg) {offset : Int}
    (hlow : -2048 ≤ offset) (hhigh : offset ≤ 2047) :
    (h.dispatch (jalrWord rd rs1 offset)).1 =
      { h with
        pc := BitVec.ofInt 32 ((h.regs.get rs1).toNat + offset) &&& ~~~1#32
        regs := h.regs.put rd (h.pc + 4) } := by
  rw [← Word.add_signExtend_ofInt_twelve (h.regs.get rs1) hlow hhigh]
  exact dispatch_of_result hzero (Decoder.decode_jalrWord rd rs1 offset) rfl

theorem dispatch_auipcWord (hzero : h.regs.get Reg.zero = 0) (rd : Reg) (upper : BitVec 20) :
    (h.dispatch (auipcWord rd upper)).1 =
      { h with
        pc := h.pc + 4
        regs := h.regs.put rd (BitVec.ofInt 32 (h.pc.toNat + 4096 * upper.toNat)) } := by
  have hresult : h.pc + (upper ++ 0#12) = BitVec.ofInt 32 (h.pc.toNat + 4096 * upper.toNat) := by
    have hupper : (4096 * upper.toNat : Int) = ((upper ++ 0#12).toNat : Int) := by
      rw [toNat_append_zero, Int.natCast_mul]
      rfl
    rw [hupper, BitVec.ofInt_add, Word.ofInt_toNat]
    exact congrArg (h.pc + ·) (Word.ofInt_toNat (upper ++ 0#12)).symm
  rw [← hresult]
  exact dispatch_of_result hzero (Decoder.decode_auipcWord rd upper) rfl

/-- **Exact control transfer.** A branch by an even offset goes there exactly if its condition
    holds of the integers in its registers, so of a branch and its opposite one is taken; JAL
    goes by its offset, JALR to the even address at or below an offset from its old base, both
    with the address behind them as link; AUIPC adds its immediate to its own address. Sums are
    modulo `2 ^ 32`, x0 stays zero, and nothing else changes. -/
theorem control_transfer_exact (h : Hart) (hzero : h.regs.get Reg.zero = 0) :
    (∀ (c : Comparison) (rs1 rs2 : Reg) (offset : Int),
      2 ∣ offset → -4096 ≤ offset → offset ≤ 4094 →
      (h.dispatch (branchWord c rs1 rs2 offset)).1 =
        { h with
          pc :=
            if c.Compares (h.regs.get rs1) (h.regs.get rs2) then
              BitVec.ofInt 32 (h.pc.toNat + offset)
            else h.pc + 4 }) ∧
    (∀ (c : Comparison) (a b : Word), c.opposite.Compares a b ↔ ¬c.Compares a b) ∧
    (∀ (rd : Reg) (offset : Int), 2 ∣ offset → -2 ^ 20 ≤ offset → offset ≤ 2 ^ 20 - 2 →
      (h.dispatch (jalWord rd offset)).1 =
        { h with
          pc := BitVec.ofInt 32 (h.pc.toNat + offset)
          regs := h.regs.put rd (h.pc + 4) }) ∧
    (∀ (rd rs1 : Reg) (offset : Int), -2048 ≤ offset → offset ≤ 2047 →
      (h.dispatch (jalrWord rd rs1 offset)).1 =
        { h with
          pc := BitVec.ofInt 32 ((h.regs.get rs1).toNat + offset) &&& ~~~1#32
          regs := h.regs.put rd (h.pc + 4) }) ∧
    (∀ (rd : Reg) (upper : BitVec 20),
      (h.dispatch (auipcWord rd upper)).1 =
        { h with
          pc := h.pc + 4
          regs := h.regs.put rd (BitVec.ofInt 32 (h.pc.toNat + 4096 * upper.toNat)) }) ∧
    (∀ (rd : Reg) (value : Word), (h.regs.put rd value).get Reg.zero = 0) := by
  refine ⟨?_, Comparison.compares_opposite, ?_, ?_, ?_, RegFile.get_zero_put hzero⟩
  · intro c rs1 rs2 offset heven hlow hhigh
    exact dispatch_branchWord hzero c rs1 rs2 heven hlow hhigh
  · intro rd offset heven hlow hhigh
    exact dispatch_jalWord hzero rd heven hlow hhigh
  · intro rd rs1 offset hlow hhigh
    exact dispatch_jalrWord hzero rd rs1 hlow hhigh
  · intro rd upper
    exact dispatch_auipcWord hzero rd upper

/-- From the last word of memory: back as far as a branch can go because the least number is
    signed less than the greatest, forth as far as JAL can go with no link, and to an odd
    address below the old value of the link register. -/
theorem control_transfer_exact_of_last :
    let regs := (RegFile.zeros.set 1 0x80000000).set 2 0x7FFFFFFF
    let h := { Hart.reset .empty .standard with regs, pc := 0xFFFFFFFC }
    h.regs.get Reg.zero = 0 ∧
    (h.dispatch (branchWord .lt 1 2 (-4096))).1 = { h with pc := 0xFFFFEFFC } ∧
    (h.dispatch (branchWord .ltu 1 2 (-4096))).1 = { h with pc := 0 } ∧
    (h.dispatch (jalWord 0 (2 ^ 20 - 2))).1 = { h with pc := 0x000FFFFA } ∧
    (h.dispatch (jalrWord 1 1 (-2047))).1 =
      { h with pc := 0x7FFFF800, regs := h.regs.set 1 0 } := by
  intro regs h
  have hzero : h.regs.get Reg.zero = 0 := by decide
  have hnext : h.pc + 4 = 0 := by decide
  have hback : BitVec.ofInt 32 (h.pc.toNat + -4096) = 0xFFFFEFFC := by decide
  have hforth : BitVec.ofInt 32 (h.pc.toNat + (2 ^ 20 - 2)) = 0x000FFFFA := by decide
  have hbelow : BitVec.ofInt 32 ((h.regs.get 1).toNat + -2047) &&& ~~~1#32 = 0x7FFFF800 := by decide
  obtain ⟨branches, -, jumps, jumpsToRegister, -, -⟩ := control_transfer_exact h hzero
  refine ⟨hzero, ?_, ?_, ?_, ?_⟩
  · rw [branches .lt 1 2 (-4096) (by decide) (by decide) (by decide), if_pos (by decide), hback]
  · rw [branches .ltu 1 2 (-4096) (by decide) (by decide) (by decide), if_neg (by decide), hnext]
  · rw [jumps 0 (2 ^ 20 - 2) (by decide) (by decide) (by decide), hforth]
    rfl
  · rw [jumpsToRegister 1 1 (-2047) (by decide) (by decide), hbelow, hnext]
    rfl

end Hart

end Rv32Sim
