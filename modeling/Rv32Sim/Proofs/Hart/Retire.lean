/-
  Rv32Sim.Proofs.Hart.Retire

  Instructions that retire with a register result and nothing besides. What such a word does
  is a statement about the whole state: the next address, and the result in its register,
  unless that is x0 (`Hart.dispatch_of_result`). Words come here by their encoding, and their
  offsets as integers, which the hart adds modulo `2 ^ 32` however many bits they have in the
  word (`Word.add_signExtend_ofInt`).
-/
import Rv32Sim.Proofs.Isa.RoundTrip
import Rv32Sim.Proofs.Hart.Effect
import Mathlib.Algebra.Ring.Int.Defs
import Mathlib.Algebra.Ring.Nat

namespace Rv32Sim

/-! ## Words with a result -/

namespace Hart

variable {h : Hart} {w : Word} {d : Decoded}

/-- An instruction that brings a result changes its register and the address of the next
    instruction, and nothing else. -/
theorem dispatch_of_result (hzero : h.regs.get Reg.zero = 0)
    (hd : Decoder.standard.decode w = some d) {next : Word} {rd : Reg} {value : Word}
    (he : h.effect? d = some (.retire next (some (rd, value)) .none)) :
    (h.dispatch w).1 = { h with pc := next, regs := h.regs.put rd value } := by
  rw [dispatch_of_effect? hd he, apply_result hzero]
  rfl

end Hart

/-! ## Offsets -/

namespace Word

/-- A word is the number that it stands for. -/
theorem ofInt_toNat {n : Nat} (w : BitVec n) : BitVec.ofInt n w.toNat = w := by
  rw [BitVec.ofInt_natCast, BitVec.ofNat_toNat, BitVec.setWidth_eq]

/-- An offset that fits its field is added as an integer. -/
theorem add_signExtend_ofInt {n : Nat} (hn : 0 < n) (w : Word) {offset : Int}
    (hlow : -2 ^ (n - 1) ≤ offset) (hhigh : offset < 2 ^ (n - 1)) :
    w + (BitVec.ofInt n offset).signExtend 32 = BitVec.ofInt 32 (w.toNat + offset) := by
  rw [BitVec.signExtend, BitVec.toInt_ofInt_eq_self hn hlow hhigh, BitVec.ofInt_add, ofInt_toNat]

/-- The offsets from a register have twelve bits. -/
theorem add_signExtend_ofInt_twelve (w : Word) {offset : Int} (hlow : -2048 ≤ offset)
    (hhigh : offset ≤ 2047) :
    w + (BitVec.ofInt 12 offset).signExtend 32 = BitVec.ofInt 32 (w.toNat + offset) :=
  add_signExtend_ofInt (by decide) w hlow (by omega)

/-- The lowest bit of an even offset is clear. -/
theorem getLsbD_ofInt_zero {n : Nat} (hn : 0 < n) {offset : Int} (heven : 2 ∣ offset) :
    (BitVec.ofInt n offset).getLsbD 0 = false := by
  have hpow : 2 ^ n = 2 * 2 ^ (n - 1) := by rw [Nat.mul_comm, Nat.two_pow_pred_mul_two hn]
  have hdvd : (2 : Int) ∣ ((2 ^ n : Nat) : Int) := Int.natCast_dvd_natCast.2 ⟨_, hpow⟩
  -- taken modulo an even number, an integer keeps its parity
  have hparity : offset % ((2 ^ n : Nat) : Int) % 2 = offset % 2 := Int.emod_emod_of_dvd offset hdvd
  rw [BitVec.getLsbD, Nat.testBit_zero, decide_eq_false_iff_not, BitVec.toNat_ofInt]
  omega

end Word

end Rv32Sim
