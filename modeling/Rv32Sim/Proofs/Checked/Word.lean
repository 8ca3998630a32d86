/-
  Rv32Sim.Proofs.Checked.Word

  Operations that stop where they have no result. The functions of this library are total:
  a difference wraps around, a shift by 32 or more gives zeros, and the types of register
  numbers and opcodes keep every position in its table. A machine that runs the simulator
  has no such types and stops with a fault instead. Here are its operations, each with what
  it needs in order not to stop.
-/
import Rv32Sim.Isa.Operands
import Mathlib.Algebra.Ring.Nat

namespace Rv32Sim

/-- Why an operation stops. -/
inductive Fault where
  /-- The operands of an instruction are of a kind that it cannot use. -/
  | operands
  /-- A table has no entry at a position. -/
  | position (e : OutOfBounds)
  /-- A word is shifted by its width or more. -/
  | shift
  /-- A difference is below zero. -/
  | underflow
  /-- A count is past its greatest value. -/
  | overflow
  /-- A divisor is zero. -/
  | divisor
  deriving DecidableEq, Repr

/-- A computation goes on with the result of a part that does not stop. -/
@[simp] theorem Fault.ok_bind {α β : Type} (x : α) (f : α → Except Fault β) :
    (Except.ok x >>= f) = f x := rfl

@[simp] theorem Fault.pure_eq_ok {α : Type} (x : α) : (pure x : Except Fault α) = .ok x := rfl

/-! ## Tables -/

/-- The entry of a table at a position. -/
def Fault.entry {α : Type} {n : Nat} (entries : Vector α n) (i : Nat) : Except Fault α :=
  if h : i < n then .ok entries[i] else .error (.position ⟨n, i⟩)

theorem Fault.entry_eq {α : Type} {n : Nat} (entries : Vector α n) {i : Nat} (h : i < n) :
    entry entries i = .ok entries[i] :=
  dif_pos h

/-! ## Counts -/

/-- One more. -/
def Count.checkedSucc (n : Count) : Except Fault Count :=
  if n = BitVec.allOnes 64 then .error .overflow else .ok (n + 1)

namespace Word

/-! ## Differences and quotients -/

/-- The difference of two numbers. -/
def checkedSub (a b : Word) : Except Fault Word :=
  if b ≤ a then .ok (a - b) else .error .underflow

theorem checkedSub_eq {a b : Word} (h : b ≤ a) : a.checkedSub b = .ok (a - b) := if_pos h

/-- The quotient of two numbers. -/
def checkedDiv (a b : Word) : Except Fault Word :=
  if b = 0 then .error .divisor else .ok (a / b)

/-- The remainder of two numbers. -/
def checkedMod (a b : Word) : Except Fault Word :=
  if b = 0 then .error .divisor else .ok (a % b)

/-! ## Shifts -/

/-- A result of a shift by `n` bits. -/
def shifted (n : Nat) (w : Word) : Except Fault Word :=
  if n < 32 then .ok w else .error .shift

theorem shifted_eq {n : Nat} (h : n < 32) (w : Word) : shifted n w = .ok w := if_pos h

/-- Shift to the left. -/
def checkedShiftLeft (w : Word) (n : Nat) : Except Fault Word := shifted n (w <<< n)

/-- Shift to the right and fill with zeros. -/
def checkedShiftRight (w : Word) (n : Nat) : Except Fault Word := shifted n (w >>> n)

/-- Shift to the right and fill with copies of the top bit. -/
def checkedSshiftRight (w : Word) (n : Nat) : Except Fault Word := shifted n (w.sshiftRight n)

/-- The low bits of a word, the highest of them repeated: to the top and back. -/
def checkedSignExtend (w : Word) (bits : Nat) : Except Fault Word := do
  let unused ← checkedSub 32 (BitVec.ofNat 32 bits)
  let top ← w.checkedShiftLeft unused.toNat
  top.checkedSshiftRight unused.toNat

/-- To the top and back. -/
theorem sshiftRight_shiftLeft (w : Word) {n : Nat} (hpos : 0 < n) (hn : n ≤ 32) :
    (w <<< (32 - n)).sshiftRight (32 - n) = (w.setWidth n).signExtend 32 := by
  apply BitVec.eq_of_getLsbD_eq
  intro i hi
  have hbelow : ¬32 ≤ i := by omega
  rw [BitVec.getLsbD_sshiftRight, BitVec.getLsbD_signExtend, BitVec.msb_eq_getLsbD_last,
    BitVec.msb_eq_getLsbD_last, BitVec.getLsbD_shiftLeft, BitVec.getLsbD_shiftLeft,
    BitVec.getLsbD_setWidth, BitVec.getLsbD_setWidth]
  by_cases hfield : i < n
  · have hinside : 32 - n + i < 32 := by omega
    have habove : ¬32 - n + i < 32 - n := by omega
    have hback : 32 - n + i - (32 - n) = i := by omega
    rw [if_pos hinside, if_pos hfield, hback]
    simp [hi, habove, hinside, hbelow, hfield]
  · -- behind the field both have its top bit
    have houtside : ¬32 - n + i < 32 := by omega
    have hlast : 32 - 1 - (32 - n) = n - 1 := by omega
    have habove : ¬32 - 1 < 32 - n := by omega
    have htop : n - 1 < n := by omega
    rw [if_neg houtside, if_neg hfield, hlast]
    simp [hi, habove, htop, hbelow]

/-- A field is sign extended without a fault as soon as it has a bit. -/
theorem checkedSignExtend_eq (w : Word) {n : Nat} (hpos : 0 < n) (hn : n ≤ 32) :
    w.checkedSignExtend n = .ok ((w.setWidth n).signExtend 32) := by
  have hle : BitVec.ofNat 32 n ≤ 32 := by bv_omega
  have hunused : (32 - BitVec.ofNat 32 n : Word).toNat = 32 - n := by bv_omega
  rw [checkedSignExtend, checkedSub_eq hle, Fault.ok_bind, hunused, checkedShiftLeft,
    shifted_eq (by omega), Fault.ok_bind, checkedSshiftRight, shifted_eq (by omega),
    sshiftRight_shiftLeft w hpos hn]

@[simp] theorem checkedSignExtend_setWidth {n : Nat} (hpos : 0 < n) (hn : n ≤ 32)
    (x : BitVec n) : checkedSignExtend (x.setWidth 32) n = .ok (x.signExtend 32) := by
  rw [checkedSignExtend_eq _ hpos hn, BitVec.setWidth_setWidth_of_le _ hn, BitVec.setWidth_eq]

/-- The bytes that an access covers, sign extended. -/
@[simp] theorem checkedSignExtend_bytes (w : Word) (size : AccessSize) :
    w.checkedSignExtend (8 * size.bytes) = .ok (w.signExtendFrom size) := by
  have hpos : 0 < 8 * size.bytes := by cases size <;> decide
  have hle : 8 * size.bytes ≤ 32 := by cases size <;> decide
  rw [checkedSignExtend_eq w hpos hle]
  cases size with
  | byte => rfl
  | half => rfl
  | word =>
    show Except.ok ((w.setWidth 32).signExtend 32) = _
    rw [BitVec.setWidth_eq, BitVec.signExtend_eq]
    rfl

/-- Keep the bytes that an access covers. -/
def checkedTruncate (w : Word) (bytes : Nat) : Except Fault Word :=
  if 4 ≤ bytes then .ok w
  else do
    let bit ← checkedShiftLeft 1 (8 * bytes)
    let mask ← bit.checkedSub 1
    return w &&& mask

theorem checkedTruncate_eq (w : Word) (size : AccessSize) :
    w.checkedTruncate size.bytes = .ok (w.zeroExtendFrom size) := by
  cases size <;> rfl

end Word

end Rv32Sim
