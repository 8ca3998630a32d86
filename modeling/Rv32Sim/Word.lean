/-
  Rv32Sim.Word

  Machine words and the bytes inside them. Registers, addresses and
  instructions are 32-bit words, memory is addressed by the byte, and a word is
  laid out least significant byte first.
-/

namespace Rv32Sim

/-- A register value, an address or an instruction. Addresses wrap at `2 ^ 32`. -/
abbrev Word := BitVec 32

/-- One unit of memory. -/
abbrev Byte := BitVec 8

/-- A 64-bit count of clock ticks, cycles or instructions. -/
abbrev Count := BitVec 64

/-! ## Access sizes -/

/-- The width of one memory access. -/
inductive AccessSize where
  | byte
  | half
  | word
  deriving DecidableEq, Repr

/-- The number of bytes that an access covers. -/
def AccessSize.bytes : AccessSize → Nat
  | .byte => 1
  | .half => 2
  | .word => 4

/-! ## Bytes of a word -/

namespace Word

/-- Byte `i` of a word, byte 0 being the least significant one. -/
def byte (w : Word) (i : Nat) : Byte :=
  w.extractLsb' (8 * i) 8

/-- The word whose low bytes are `f 0`, `f 1`, … up to the access size, and whose
    other bytes are zero. -/
def ofBytes (f : Nat → Byte) : AccessSize → Word
  | .byte => (f 0).setWidth 32
  | .half => (f 1 ++ f 0).setWidth 32
  | .word => f 3 ++ f 2 ++ f 1 ++ f 0

/-- Keep the bytes that an access covers and clear the others. -/
def zeroExtendFrom (w : Word) : AccessSize → Word
  | .byte => w &&& 0xFF
  | .half => w &&& 0xFFFF
  | .word => w

/-- Repeat the top bit of the bytes that an access covers through the rest of the word. -/
def signExtendFrom (w : Word) : AccessSize → Word
  | .byte => (w.setWidth 8).signExtend 32
  | .half => (w.setWidth 16).signExtend 32
  | .word => w

/-! ### Bits and bytes -/

theorem getLsbD_byte (w : Word) (i j : Nat) :
    (w.byte i).getLsbD j = (decide (j < 8) && w.getLsbD (8 * i + j)) := by
  simp only [byte, BitVec.getLsbD_extractLsb']

theorem getLsbD_ofBytes (f : Nat → Byte) (size : AccessSize) (j : Nat) :
    (ofBytes f size).getLsbD j =
      (decide (j < 8 * size.bytes) && (f (j / 8)).getLsbD (j % 8)) := by
  have high (b : Byte) (k : Nat) (hk : 8 ≤ k) : b.getLsbD k = false :=
    BitVec.getLsbD_of_ge _ _ hk
  rcases (by omega : j / 8 = 0 ∨ j / 8 = 1 ∨ j / 8 = 2 ∨ j / 8 = 3 ∨ 4 ≤ j / 8) with
    h | h | h | h | h <;>
  cases size <;>
    simp only [ofBytes, AccessSize.bytes, BitVec.getLsbD_setWidth, BitVec.getLsbD_append] <;>
    grind

/-- The bytes of an assembled word are those it was assembled from, then zeros. -/
theorem byte_ofBytes (f : Nat → Byte) (size : AccessSize) (i : Nat) :
    (ofBytes f size).byte i = if i < size.bytes then f i else 0 := by
  apply BitVec.eq_of_getLsbD_eq
  intro j hj
  rw [getLsbD_byte, getLsbD_ofBytes, show (8 * i + j) / 8 = i by omega,
    show (8 * i + j) % 8 = j by omega]
  by_cases h : i < size.bytes
  · have hb : 8 * i + j < 8 * size.bytes := by omega
    simp only [h, hj, hb, decide_true, Bool.true_and, if_true]
  · have hb : ¬ 8 * i + j < 8 * size.bytes := by omega
    simp only [h, hb, decide_false, Bool.false_and, Bool.and_false, if_false,
      BitVec.ofNat_eq_ofNat, BitVec.getLsbD_zero]

/-- A word is assembled from its own bytes. -/
theorem ofBytes_byte (w : Word) : ofBytes w.byte .word = w := by
  apply BitVec.eq_of_getLsbD_eq
  intro j hj
  rw [getLsbD_ofBytes, getLsbD_byte, show 8 * (j / 8) + j % 8 = j by omega]
  simp only [AccessSize.bytes, hj, decide_true, Bool.true_and, Nat.mod_lt j (show 8 > 0 by decide)]

/-! ## Words of memory

Memory words sit at multiples of four, so an address splits into the number of
its word and the position of its byte in that word. The number with two zero bits
behind it is the address with its two lowest bits cleared (`alignDown_eq_ofIndex`). -/

/-- The number of the memory word that contains an address. -/
def index (a : Word) : BitVec 30 :=
  a.extractLsb' 2 30

/-- The position of an address inside its memory word. -/
def offset (a : Word) : BitVec 2 :=
  a.setWidth 2

/-- The address of the first byte of memory word `k`. -/
def ofIndex (k : BitVec 30) : Word :=
  k ++ 0#2

@[simp] theorem index_ofIndex (k : BitVec 30) : (ofIndex k).index = k := by
  apply BitVec.eq_of_getLsbD_eq
  intro i hi
  simp only [index, ofIndex, BitVec.getLsbD_extractLsb', BitVec.getLsbD_append, hi,
    decide_true, Bool.true_and]
  grind

@[simp] theorem offset_ofIndex (k : BitVec 30) : (ofIndex k).offset = 0 := by
  apply BitVec.eq_of_getLsbD_eq
  intro i hi
  simp only [offset, ofIndex, BitVec.getLsbD_setWidth, BitVec.getLsbD_append, hi, if_true,
    BitVec.ofNat_eq_ofNat, BitVec.getLsbD_zero, Bool.and_false]

/-- An address with its two lowest bits cleared: the first one of its memory word. -/
def alignDown (a : Word) : Word := a &&& ~~~3#32

theorem alignDown_eq_ofIndex (a : Word) : a.alignDown = ofIndex a.index := by
  apply BitVec.eq_of_getLsbD_eq
  intro i hi
  -- the mask clears bits 0 and 1, and the number of the word begins at bit 2
  have hmask : (3#32).getLsbD i = decide (i < 2) := by
    rw [show 3#32 = (BitVec.allOnes 2).setWidth 32 from rfl, BitVec.getLsbD_setWidth,
      BitVec.getLsbD_allOnes]
    simp [hi]
  rw [alignDown, ofIndex, index, BitVec.getLsbD_and, BitVec.getLsbD_not, hmask,
    BitVec.getLsbD_append, BitVec.getLsbD_zero, BitVec.getLsbD_extractLsb']
  by_cases hlow : i < 2
  · simp [hlow]
  · have hback : 2 + (i - 2) = i := by omega
    have hin : i - 2 < 30 := by omega
    simp [hlow, hi, hback, hin]

@[simp] theorem index_alignDown (a : Word) : a.alignDown.index = a.index := by
  rw [alignDown_eq_ofIndex, index_ofIndex]

/-- Addresses are aligned down to one address exactly if they belong to one memory word. -/
theorem alignDown_eq_iff {a b : Word} : a.alignDown = b.alignDown ↔ a.index = b.index := by
  constructor
  · intro h
    rw [← index_alignDown a, h, index_alignDown]
  · intro h
    rw [alignDown_eq_ofIndex, alignDown_eq_ofIndex, h]

end Word

/-! ## Positions outside a table -/

/-- An access at position `index` of a table with `length` entries, which it lies outside of. -/
structure OutOfBounds where
  length : Nat
  index : Nat
  deriving DecidableEq, Repr

/-- The wording of an access outside a table. -/
def OutOfBounds.message (e : OutOfBounds) : String :=
  s!"index out of bounds: the len is {e.length} but the index is {e.index}"

end Rv32Sim
