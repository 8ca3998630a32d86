/-
  Rv32Sim.Proofs.Hart.Alu

  The operations of the arithmetic instructions in terms of the integers that words stand for.
  `BitVec.ofInt 32` takes an integer modulo `2 ^ 32`, and `/` on integers rounds down when the
  divisor is positive. A 64-bit product is taken modulo `2 ^ 64`, which its high word does not
  show (`highWord_ofInt`), so no case needs a bound on its factors.
-/
import Rv32Sim.Proofs.Hart.Retire
import Rv32Sim.Hart.Alu

namespace Rv32Sim

/-! ## Products -/

/-- The high word of a 64-bit number, whatever was lost above it. -/
theorem highWord_ofInt (p : Int) :
    highWord (BitVec.ofInt 64 p) = BitVec.ofInt 32 (p / 2 ^ 32) := by
  apply BitVec.eq_of_toNat_eq
  rw [highWord, BitVec.extractLsb'_toNat, BitVec.toNat_ofInt, BitVec.toNat_ofInt,
    Nat.shiftRight_eq_div_pow]
  omega

theorem Word.setWidth_64 (w : Word) : w.setWidth 64 = BitVec.ofInt 64 w.toNat := by
  rw [BitVec.ofInt_natCast, BitVec.ofNat_toNat]

/-- A product of a signed word and a signed or unsigned one fits into two words, of which the
    high one has the sign. -/
theorem eq_signed_add_low {x y : Int} (hx : x.natAbs ≤ 2 ^ 31) (hy : y.natAbs ≤ 2 ^ 32 - 1) :
    x * y = (BitVec.ofInt 32 (x * y / 2 ^ 32)).toInt * 2 ^ 32 + (BitVec.ofInt 32 (x * y)).toNat := by
  have hbound : (x * y).natAbs ≤ 2 ^ 31 * (2 ^ 32 - 1) := by
    rw [Int.natAbs_mul]
    exact Nat.mul_le_mul hx hy
  -- the product is below `2 ^ 63` in size, so its upper half is a signed word
  have hhigh : (BitVec.ofInt 32 (x * y / 2 ^ 32)).toInt = x * y / 2 ^ 32 := by
    apply BitVec.toInt_ofInt_eq_self <;> omega
  rw [hhigh, BitVec.toNat_ofInt]
  omega

/-- A product of unsigned words fits into two words. -/
theorem eq_unsigned_add_low {x y : Nat} (hx : x < 2 ^ 32) (hy : y < 2 ^ 32) :
    x * y = (BitVec.ofInt 32 (x * y / 2 ^ 32)).toNat * 2 ^ 32 + (BitVec.ofInt 32 (x * y)).toNat := by
  have hbound : x * y < 2 ^ 32 * 2 ^ 32 := Nat.mul_lt_mul'' hx hy
  rw [BitVec.toNat_ofInt, BitVec.toNat_ofInt]
  omega

namespace Word

/-! The low word of a product is the same for all readings of the factors. -/

theorem ofInt_toInt_mul_toInt (a b : Word) : BitVec.ofInt 32 (a.toInt * b.toInt) = a * b := by
  rw [BitVec.ofInt_mul, BitVec.ofInt_toInt, BitVec.ofInt_toInt]

theorem ofInt_toInt_mul_toNat (a b : Word) : BitVec.ofInt 32 (a.toInt * b.toNat) = a * b := by
  rw [BitVec.ofInt_mul, BitVec.ofInt_toInt, ofInt_toNat]

theorem ofInt_toNat_mul_toNat (a b : Word) : BitVec.ofInt 32 (a.toNat * b.toNat) = a * b := by
  rw [BitVec.ofInt_mul, ofInt_toNat, ofInt_toNat]

theorem natAbs_toInt_le (w : Word) : w.toInt.natAbs ≤ 2 ^ 31 := by
  have hlow := w.le_toInt
  have hhigh := w.toInt_lt
  omega

end Word

namespace AluOp

variable (a b : Word)

theorem eval_add : add.eval a b = BitVec.ofInt 32 (a.toNat + b.toNat) := by
  rw [BitVec.ofInt_add, Word.ofInt_toNat, Word.ofInt_toNat]
  rfl

theorem eval_sub : sub.eval a b = BitVec.ofInt 32 (a.toNat - b.toNat) := by
  rw [Int.sub_eq_add_neg, BitVec.ofInt_add, BitVec.ofInt_neg, Word.ofInt_toNat,
    Word.ofInt_toNat, ← BitVec.sub_eq_add_neg]
  rfl

theorem eval_mul : mul.eval a b = BitVec.ofInt 32 (a.toNat * b.toNat) := by
  rw [Word.ofInt_toNat_mul_toNat]
  rfl

theorem eval_mulh : mulh.eval a b = BitVec.ofInt 32 (a.toInt * b.toInt / 2 ^ 32) := by
  rw [← highWord_ofInt, BitVec.ofInt_mul]
  rfl

theorem eval_mulhu : mulhu.eval a b = BitVec.ofInt 32 (a.toNat * b.toNat / 2 ^ 32) := by
  rw [← highWord_ofInt, BitVec.ofInt_mul, ← Word.setWidth_64, ← Word.setWidth_64]
  rfl

theorem eval_mulhsu : mulhsu.eval a b = BitVec.ofInt 32 (a.toInt * b.toNat / 2 ^ 32) := by
  rw [← highWord_ofInt, BitVec.ofInt_mul, ← Word.setWidth_64]
  rfl

theorem eval_sll : sll.eval a b = BitVec.ofInt 32 (a.toNat * 2 ^ (b.toNat % 32)) := by
  apply BitVec.eq_of_toNat_eq
  rw [eval, BitVec.toNat_shiftLeft, Nat.shiftLeft_eq, BitVec.toNat_ofInt]
  norm_cast

theorem toNat_eval_srl : (srl.eval a b).toNat = a.toNat / 2 ^ (b.toNat % 32) := by
  rw [eval, BitVec.toNat_ushiftRight, Nat.shiftRight_eq_div_pow]

theorem eval_sra : sra.eval a b = BitVec.ofInt 32 (a.toInt / 2 ^ (b.toNat % 32)) := by
  rw [← BitVec.ofInt_toInt (x := sra.eval a b), eval, BitVec.toInt_sshiftRight,
    Int.shiftRight_eq_div_pow]
  norm_cast

theorem eval_slt : slt.eval a b = if a.toInt < b.toInt then 1 else 0 := by
  simp only [eval, BitVec.slt_iff_toInt_lt]

theorem eval_sltu : sltu.eval a b = if a.toNat < b.toNat then 1 else 0 := by
  simp only [eval, BitVec.ult_iff_toNat_lt]

theorem toNat_eval_divu (hb : b ≠ 0) : (divu.eval a b).toNat = a.toNat / b.toNat := by
  rw [eval, if_neg hb, BitVec.toNat_udiv]

theorem toNat_eval_remu (hb : b ≠ 0) : (remu.eval a b).toNat = a.toNat % b.toNat := by
  rw [eval, if_neg hb, BitVec.toNat_umod]

end AluOp

end Rv32Sim
