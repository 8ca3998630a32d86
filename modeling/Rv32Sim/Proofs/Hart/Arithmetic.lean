/-
  Rv32Sim.Proofs.Hart.Arithmetic

  The arithmetic instructions in exact integers. `Mnemonic.Computes` says what each of them
  computes, without wrapping operations and without the ways in which the hart groups its
  instructions; `arithmetic_exact` says that a word that decodes to one of them brings that
  result and does nothing else. A product is spread over two instructions, and so are quotient
  and remainder: each pair is tied together.
-/
import Rv32Sim.Proofs.Hart.Alu
import Mathlib.Data.List.Basic

namespace Rv32Sim

namespace Mnemonic

/-- The arithmetic instructions on two registers. -/
def onRegisters : List Mnemonic :=
  [add, sub, sll, slt, sltu, xor, srl, sra, or, and,
   mul, mulh, mulhsu, mulhu, div, divu, rem, remu]

/-- The arithmetic instructions on a register and an immediate. -/
def onImmediate : List Mnemonic :=
  [addi, slti, sltiu, xori, ori, andi, slli, srli, srai]

/-- `r` is what an arithmetic instruction computes from the values `a` and `b`. Both divisions
    are unsigned. -/
def Computes (m : Mnemonic) (a b r : Word) : Prop :=
  match m with
  | add | addi => r = BitVec.ofInt 32 (a.toNat + b.toNat)
  | sub => r = BitVec.ofInt 32 (a.toNat - b.toNat)
  | slt | slti => r = if a.toInt < b.toInt then 1 else 0
  | sltu | sltiu => r = if a.toNat < b.toNat then 1 else 0
  | sll | slli => r = BitVec.ofInt 32 (a.toNat * 2 ^ (b.toNat % 32))
  | srl | srli => r.toNat = a.toNat / 2 ^ (b.toNat % 32)
  | sra | srai => r = BitVec.ofInt 32 (a.toInt / 2 ^ (b.toNat % 32))
  | and | andi => ∀ i, r.getLsbD i = (a.getLsbD i && b.getLsbD i)
  | or | ori => ∀ i, r.getLsbD i = (a.getLsbD i || b.getLsbD i)
  | xor | xori => ∀ i, r.getLsbD i = (a.getLsbD i ^^ b.getLsbD i)
  | mul => r = BitVec.ofInt 32 (a.toNat * b.toNat)
  | mulh => r = BitVec.ofInt 32 (a.toInt * b.toInt / 2 ^ 32)
  | mulhu => r = BitVec.ofInt 32 (a.toNat * b.toNat / 2 ^ 32)
  | mulhsu => r = BitVec.ofInt 32 (a.toInt * b.toNat / 2 ^ 32)
  | div | divu => if b = 0 then r = BitVec.allOnes 32 else r.toNat = a.toNat / b.toNat
  | rem | remu => if b = 0 then r = a else r.toNat = a.toNat % b.toNat
  | _ => False

/-- The operation of an arithmetic instruction computes what it should. -/
theorem computes_eval {m : Mnemonic} {op : AluOp} (hm : m.action = .arith op) (a b : Word) :
    m.Computes a b (op.eval a b) := by
  cases m with
  | add | addi => cases hm; exact AluOp.eval_add a b
  | sub => cases hm; exact AluOp.eval_sub a b
  | slt | slti => cases hm; exact AluOp.eval_slt a b
  | sltu | sltiu => cases hm; exact AluOp.eval_sltu a b
  | sll | slli => cases hm; exact AluOp.eval_sll a b
  | srl | srli => cases hm; exact AluOp.toNat_eval_srl a b
  | sra | srai => cases hm; exact AluOp.eval_sra a b
  | and | andi => cases hm; exact fun i => BitVec.getLsbD_and
  | or | ori => cases hm; exact fun i => BitVec.getLsbD_or
  | xor | xori => cases hm; exact fun i => BitVec.getLsbD_xor
  | mul => cases hm; exact AluOp.eval_mul a b
  | mulh => cases hm; exact AluOp.eval_mulh a b
  | mulhu => cases hm; exact AluOp.eval_mulhu a b
  | mulhsu => cases hm; exact AluOp.eval_mulhsu a b
  | div | divu =>
    cases hm
    show if b = 0 then _ else _
    split
    · next hb => exact if_pos hb
    · next hb => exact AluOp.toNat_eval_divu a b hb
  | rem | remu =>
    cases hm
    show if b = 0 then _ else _
    split
    · next hb => exact if_pos hb
    · next hb => exact AluOp.toNat_eval_remu a b hb
  | _ => cases hm

/-- No arithmetic instruction works in another way. -/
theorem exists_op_of_mem {m : Mnemonic} (hm : m ∈ onRegisters ++ onImmediate) :
    ∃ op, m.action = .arith op := by
  cases m <;> first | exact ⟨_, rfl⟩ | exact absurd hm (by decide)

/-! ## Pairs of results -/

variable {a b hi lo q r : Word}

/-- A signed product is in the words of MULH and MUL. -/
theorem product_of_mulh (hhi : mulh.Computes a b hi) (hlo : mul.Computes a b lo) :
    a.toInt * b.toInt = hi.toInt * 2 ^ 32 + lo.toNat := by
  have hb : b.toInt.natAbs ≤ 2 ^ 32 - 1 := Nat.le_trans b.natAbs_toInt_le (by decide)
  have hproduct := eq_signed_add_low a.natAbs_toInt_le hb
  rw [Computes, Word.ofInt_toNat_mul_toNat] at hlo
  rw [Word.ofInt_toInt_mul_toInt, ← hhi, ← hlo] at hproduct
  exact hproduct

/-- An unsigned product is in the words of MULHU and MUL. -/
theorem product_of_mulhu (hhi : mulhu.Computes a b hi) (hlo : mul.Computes a b lo) :
    a.toNat * b.toNat = hi.toNat * 2 ^ 32 + lo.toNat := by
  have hproduct := eq_unsigned_add_low a.isLt b.isLt
  rw [← hhi, ← hlo] at hproduct
  exact hproduct

/-- The product of a signed and an unsigned word is in the words of MULHSU and MUL. -/
theorem product_of_mulhsu (hhi : mulhsu.Computes a b hi) (hlo : mul.Computes a b lo) :
    a.toInt * b.toNat = hi.toInt * 2 ^ 32 + lo.toNat := by
  have hb : (b.toNat : Int).natAbs ≤ 2 ^ 32 - 1 := Nat.le_sub_one_of_lt b.isLt
  have hproduct := eq_signed_add_low a.natAbs_toInt_le hb
  rw [Computes, Word.ofInt_toNat_mul_toNat] at hlo
  rw [Word.ofInt_toInt_mul_toNat, ← hhi, ← hlo] at hproduct
  exact hproduct

/-- Quotient and remainder by a divisor other than zero. -/
theorem division_of_computes {quotient remainder : Mnemonic} (hb : b ≠ 0)
    (hquotient : quotient ∈ [div, divu]) (hremainder : remainder ∈ [rem, remu])
    (hq : quotient.Computes a b q) (hr : remainder.Computes a b r) :
    a.toNat = q.toNat * b.toNat + r.toNat ∧ r.toNat < b.toNat := by
  have hq' : q.toNat = a.toNat / b.toNat := by
    rcases List.mem_pair.1 hquotient with rfl | rfl <;> exact (if_neg hb).mp hq
  have hr' : r.toNat = a.toNat % b.toNat := by
    rcases List.mem_pair.1 hremainder with rfl | rfl <;> exact (if_neg hb).mp hr
  have hpos : 0 < b.toNat := Nat.pos_of_ne_zero fun hzero => hb (BitVec.eq_of_toNat_eq hzero)
  rw [hq', hr']
  exact ⟨(Nat.div_add_mod' a.toNat b.toNat).symm, Nat.mod_lt _ hpos⟩

end Mnemonic

/-! ## Words -/

/-- A shift amount is in the field where others have a second source register. -/
theorem Word.signExtend_amount (w : Word) :
    (w.immI &&& 0x1F).signExtend 32 = w.rs2.setWidth 32 := by
  have hmsb : (w.immI &&& 0x1F).msb = false := by
    rw [BitVec.msb_eq_getLsbD_last, BitVec.getLsbD_and, getLsbD_shiftMask, Bool.and_eq_false_iff]
    exact .inr (by decide)
  rw [BitVec.signExtend_eq_setWidth_of_msb_false hmsb]
  apply BitVec.eq_of_getLsbD_eq
  intro i hi
  simp only [BitVec.getLsbD_setWidth, BitVec.getLsbD_and, getLsbD_shiftMask, immI, rs2,
    BitVec.getLsbD_extractLsb']
  grind

theorem isaTable_arithmetic : ∀ row ∈ isaTable,
    (row.mnemonic ∈ Mnemonic.onRegisters → row.format = .r) ∧
    (row.mnemonic ∈ Mnemonic.onImmediate → row.format = .i) := by
  decide +kernel

namespace Hart

variable {h : Hart}

/-- The second operand of an arithmetic instruction: a register, the five bits of a shift
    amount, or the immediate with its sign. -/
def secondOperand (h : Hart) (m : Mnemonic) (w : Word) : Word :=
  if m ∈ Mnemonic.onRegisters then h.regs.get w.rs2
  else if m.isImmediateShift = true then w.rs2.setWidth 32
  else w.immI.signExtend 32

/-- The effect of an arithmetic instruction. -/
theorem effect?_arithmetic (h : Hart) {row : Row} (hrow : row ∈ isaTable) (w : Word)
    (hm : row.mnemonic ∈ Mnemonic.onRegisters ++ Mnemonic.onImmediate) {op : AluOp}
    (hop : row.mnemonic.action = .arith op) :
    h.effect? ⟨row.mnemonic, .ofWord row.mnemonic w row.format⟩ =
      some (h.writing w.rd
        (op.eval (h.regs.get w.rs1) (h.secondOperand row.mnemonic w))) := by
  obtain ⟨hregisters, himmediate⟩ := isaTable_arithmetic row hrow
  unfold secondOperand
  by_cases hr : row.mnemonic ∈ Mnemonic.onRegisters
  · rw [if_pos hr, hregisters hr, effect?, hop]
    rfl
  · have hi : row.mnemonic ∈ Mnemonic.onImmediate := (List.mem_append.1 hm).resolve_left hr
    rw [if_neg hr, himmediate hi, effect?, hop, Operands.ofWord]
    show some (h.writing w.rd _) = _
    split
    · rw [Word.signExtend_amount]
    · rfl

/-- **Exact arithmetic.** A word that decodes to an arithmetic instruction brings the exact
    result for the old values of its operands, unless its destination is x0, and moves on;
    nothing else changes. MUL with any of the three instructions for the high word gives the
    whole product, and quotient and remainder by a divisor other than zero give the dividend. -/
theorem arithmetic_exact :
    (∀ (h : Hart) (w : Word) (d : Decoded), h.regs.get Reg.zero = 0 →
      Decoder.standard.decode w = some d →
      d.mnemonic ∈ Mnemonic.onRegisters ++ Mnemonic.onImmediate →
      ∃ r, d.mnemonic.Computes (h.regs.get w.rs1) (h.secondOperand d.mnemonic w) r ∧
        (h.dispatch w).1 = { h with pc := h.pc + 4, regs := h.regs.put w.rd r }) ∧
    (∀ a b hi lo : Word, Mnemonic.mul.Computes a b lo →
      (Mnemonic.mulh.Computes a b hi → a.toInt * b.toInt = hi.toInt * 2 ^ 32 + lo.toNat) ∧
      (Mnemonic.mulhu.Computes a b hi → a.toNat * b.toNat = hi.toNat * 2 ^ 32 + lo.toNat) ∧
      (Mnemonic.mulhsu.Computes a b hi → a.toInt * b.toNat = hi.toInt * 2 ^ 32 + lo.toNat)) ∧
    (∀ a b q r : Word, b ≠ 0 →
      ∀ quotient ∈ [Mnemonic.div, .divu], ∀ remainder ∈ [Mnemonic.rem, .remu],
        quotient.Computes a b q → remainder.Computes a b r →
          a.toNat = q.toNat * b.toNat + r.toNat ∧ r.toNat < b.toNat) := by
  refine ⟨?_, ?_, ?_⟩
  · intro h w d hzero hd hm
    obtain ⟨op, hop⟩ := Mnemonic.exists_op_of_mem hm
    refine ⟨_, Mnemonic.computes_eval hop _ _, dispatch_of_result hzero hd ?_⟩
    obtain ⟨row, hrow, -, -, rfl⟩ | ⟨-, rfl⟩ := Decoder.decode_build_cases hd
    · exact effect?_arithmetic h hrow w hm hop
    · -- what no row accepts is not arithmetic
      cases hop
  · intro a b hi lo hlo
    exact ⟨fun hhi => Mnemonic.product_of_mulh hhi hlo,
      fun hhi => Mnemonic.product_of_mulhu hhi hlo,
      fun hhi => Mnemonic.product_of_mulhsu hhi hlo⟩
  · intro a b q r hb quotient hquotient remainder hremainder hq hr
    exact Mnemonic.division_of_computes hb hquotient hremainder hq hr

/-- MULHSU of the least signed and the greatest unsigned word, over its own first operand, in
    the last word of memory; the product in two words; and the division of a negative dividend,
    which is taken as unsigned. -/
theorem arithmetic_exact_of_extremes :
    let regs := (RegFile.zeros.set 1 0x80000000).set 2 0xFFFFFFFF
    let h := { Hart.reset .empty .standard with regs, pc := 0xFFFFFFFC }
    h.regs.get Reg.zero = 0 ∧ Decoder.standard.decode 0x0220A0B3 = some ⟨.mulhsu, .r 1 2 1⟩ ∧
    (h.dispatch 0x0220A0B3).1 = { h with pc := 0, regs := h.regs.set 1 0x80000000 } ∧
    Mnemonic.mul.Computes 0x80000000 0xFFFFFFFF 0x80000000 ∧
    Mnemonic.mulhsu.Computes 0x80000000 0xFFFFFFFF 0x80000000 ∧
    (0x80000000 : Word).toInt * (0xFFFFFFFF : Word).toNat =
      (0x80000000 : Word).toInt * 2 ^ 32 + (0x80000000 : Word).toNat ∧
    Mnemonic.div.Computes 0xFFFFFFF9 2 0x7FFFFFFC ∧ Mnemonic.remu.Computes 0xFFFFFFF9 2 1 ∧
    (0xFFFFFFF9 : Word).toNat = (0x7FFFFFFC : Word).toNat * 2 + 1 := by
  intro regs h
  have hzero : h.regs.get Reg.zero = 0 := by decide
  have hd : Decoder.standard.decode 0x0220A0B3 = some ⟨.mulhsu, .r 1 2 1⟩ := by decide +kernel
  have hmul : Mnemonic.mul.Computes 0x80000000 0xFFFFFFFF 0x80000000 := by
    unfold Mnemonic.Computes
    decide
  have hmulhsu : Mnemonic.mulhsu.Computes 0x80000000 0xFFFFFFFF 0x80000000 := by
    unfold Mnemonic.Computes
    decide
  have hdiv : Mnemonic.div.Computes 0xFFFFFFF9 2 0x7FFFFFFC := by
    unfold Mnemonic.Computes
    decide
  have hremu : Mnemonic.remu.Computes 0xFFFFFFF9 2 1 := by
    unfold Mnemonic.Computes
    decide
  obtain ⟨words, products, divisions⟩ := arithmetic_exact
  refine ⟨hzero, hd, ?_, hmul, hmulhsu, (products _ _ _ _ hmul).2.2 hmulhsu, hdiv, hremu, ?_⟩
  · obtain ⟨r, hr, hdispatch⟩ := words h 0x0220A0B3 _ hzero hd (by decide)
    have hr' : r = 0x80000000 := hr.trans (by decide)
    have hrd : Word.rd 0x0220A0B3 = 1 := by decide
    have hpc : h.pc + 4 = 0 := by decide
    rw [hdispatch, hr', hrd, hpc]
    rfl
  · exact (divisions _ _ _ _ (by decide) .div (by decide) .remu (by decide) hdiv hremu).1

end Hart

end Rv32Sim
