/-
  Rv32Sim.Memory.Ram

  Sparse memory: the bytes that were written, and nothing else. A byte that was
  never written is absent, so that a reader can look for it elsewhere.
-/
import Rv32Sim.Word
import Std.Data.ExtTreeMap

namespace Rv32Sim

/-- The bytes written so far. -/
structure Ram where
  bytes : Std.ExtTreeMap Word Byte
  deriving DecidableEq

namespace Ram

/-- Memory that was never written. -/
def empty : Ram := ⟨∅⟩

/-- The byte at address `a`, if one was written. -/
def read? (ram : Ram) (a : Word) : Option Byte := ram.bytes[a]?

/-- Whether the byte at address `a` was written. -/
def contains (ram : Ram) (a : Word) : Bool := ram.bytes.contains a

/-- Write one byte. -/
def write (ram : Ram) (a : Word) (b : Byte) : Ram :=
  ⟨ram.bytes.insert a b⟩

/-- Write the low `n` bytes of `w` to the addresses from `a` on. -/
def store (ram : Ram) (a w : Word) : Nat → Ram
  | 0 => ram
  | n + 1 => (ram.store a w n).write (a + BitVec.ofNat 32 n) (w.byte n)

theorem contains_eq_isSome (ram : Ram) (a : Word) :
    ram.contains a = (ram.read? a).isSome := by
  simp only [contains, read?, Std.ExtTreeMap.contains_eq_isSome_getElem?]

theorem read?_write (ram : Ram) (a b : Word) (x : Byte) :
    (ram.write a x).read? b = if b = a then some x else ram.read? b := by
  simp only [write, read?, Std.ExtTreeMap.getElem?_insert, Std.LawfulEqCmp.compare_eq_iff_eq]
  simp only [eq_comm]

/-- A store is seen at the addresses that it covers, counted from its first one, and
    nowhere else. -/
theorem read?_store (ram : Ram) (a w b : Word) (n : Nat) (hn : n ≤ 0x100000000) :
    (ram.store a w n).read? b =
      if (b - a).toNat < n then some (w.byte (b - a).toNat) else ram.read? b := by
  induction n with
  | zero => simp only [store, Nat.not_lt_zero, if_false]
  | succ n ih =>
    have last : b = a + BitVec.ofNat 32 n ↔ (b - a).toNat = n := by
      constructor <;> (intro h; subst h; bv_omega)
    rw [store, read?_write, ih (by omega)]
    by_cases h : (b - a).toNat = n
    · rw [if_pos (last.2 h), if_pos (by omega), h]
    · rw [if_neg (mt last.1 h)]
      by_cases h' : (b - a).toNat < n
      · rw [if_pos h', if_pos (by omega)]
      · rw [if_neg h', if_neg (by omega)]

/-- The number of bytes ever written. -/
def size (ram : Ram) : Nat := ram.bytes.size

/-- Whether no byte was ever written. -/
def isEmpty (ram : Ram) : Bool := ram.bytes.isEmpty

end Ram

end Rv32Sim
