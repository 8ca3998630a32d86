/-
  Rv32Sim.Proofs.Memory.Word

  The bytes of a word, and the addresses of a memory word. A word is determined by its four
  bytes (`Word.ext_byte`). A memory word is four addresses, and an address is told by its
  position there (`Word.index_eq_iff`, `Word.toNat_sub_ofIndex_index`).
-/
import Mathlib.Algebra.Ring.Nat
import Rv32Sim.Word

namespace Rv32Sim

namespace Word

/-! ## Bytes -/

/-- Only the bytes that an access covers count. -/
theorem ofBytes_congr {f g : Nat → Byte} {size : AccessSize}
    (h : ∀ i < size.bytes, f i = g i) : ofBytes f size = ofBytes g size := by
  apply BitVec.eq_of_getLsbD_eq
  intro j _
  rw [getLsbD_ofBytes, getLsbD_ofBytes]
  by_cases hj : j < 8 * size.bytes
  · rw [h (j / 8) (by omega)]
  · rw [decide_eq_false hj, Bool.false_and, Bool.false_and]

/-- Words with the same bytes are equal. -/
theorem ext_byte {v w : Word} (h : ∀ i < 4, v.byte i = w.byte i) : v = w := by
  rw [← v.ofBytes_byte, ← w.ofBytes_byte]
  exact ofBytes_congr h

/-- Bytes are counted from the least significant one. -/
theorem toNat_byte (w : Word) (i : Nat) : (w.byte i).toNat = w.toNat / 256 ^ i % 256 := by
  rw [byte, BitVec.extractLsb'_toNat, Nat.shiftRight_eq_div_pow, Nat.pow_mul]

/-! ## Addresses of a memory word -/

theorem toNat_index (a : Word) : a.index.toNat = a.toNat / 4 := by
  have ha := a.isLt
  rw [index, BitVec.extractLsb'_toNat, Nat.shiftRight_eq_div_pow]
  omega

theorem toNat_offset (a : Word) : a.offset.toNat = a.toNat % 4 := by
  rw [offset, BitVec.toNat_setWidth]

theorem toNat_ofIndex (k : BitVec 30) : (ofIndex k).toNat = 4 * k.toNat := by
  rw [ofIndex, BitVec.toNat_append, Nat.shiftLeft_eq]
  show k.toNat * 2 ^ 2 ||| 0 = 4 * k.toNat
  rw [Nat.or_zero]
  omega

/-- The first byte of a memory word has the address of the word. -/
theorem ofIndex_index_of_offset {a : Word} (ha : a.offset = 0) : ofIndex a.index = a := by
  apply BitVec.eq_of_toNat_eq
  have hzero : a.toNat % 4 = 0 := by
    rw [← toNat_offset, ha]
    rfl
  rw [toNat_ofIndex, toNat_index]
  omega

/-- A memory word has four bytes, counted from the address of the word. -/
theorem index_eq_iff (k : BitVec 30) (x : Word) :
    x.index = k ↔ (x - ofIndex k).toNat < 4 := by
  have hx := x.isLt
  have hk := k.isLt
  rw [← BitVec.toNat_inj, toNat_index, BitVec.toNat_sub, toNat_ofIndex]
  omega

theorem toNat_sub_ofIndex_index (x : Word) : (x - ofIndex x.index).toNat = x.offset.toNat := by
  have hx := x.isLt
  rw [BitVec.toNat_sub, toNat_ofIndex, toNat_index, toNat_offset]
  omega

end Word

end Rv32Sim
