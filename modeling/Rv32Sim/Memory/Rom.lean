/-
  Rv32Sim.Memory.Rom

  The program image: a finite map from memory words to their contents. Its keys
  are word numbers, so every address of a word reads and writes the same entry
  and two images are equal exactly when they answer alike everywhere. A key stands
  for an aligned address: with its two zero bits it is `a.alignDown`, the address
  with its two lowest bits cleared (`Word.alignDown_eq_ofIndex`), and an entry can be
  found by this address as well as by any other of its word (`word?_alignDown`).
-/
import Rv32Sim.Word
import Std.Data.ExtTreeMap

namespace Rv32Sim

/-- A program image, keyed by the number of the memory word. With two zero bits behind it
    the key of address `a` is `a &&& ~~~3` (`Word.alignDown_eq_ofIndex`). -/
structure Rom where
  words : Std.ExtTreeMap (BitVec 30) Word
  deriving DecidableEq

namespace Rom

/-- The image with no words. -/
def empty : Rom := ⟨∅⟩

/-- Replace the memory word that contains address `a`. -/
def insert (rom : Rom) (a w : Word) : Rom :=
  ⟨rom.words.insert a.index w⟩

/-- The memory word that contains address `a`. -/
def word? (rom : Rom) (a : Word) : Option Word :=
  rom.words[a.index]?

/-- An insertion at `a` is one at the address that its key stands for, `a &&& ~~~3`. -/
theorem insert_alignDown (rom : Rom) (a w : Word) : rom.insert a.alignDown w = rom.insert a w := by
  rw [insert, insert, Word.index_alignDown]

/-- A query at `a` is one at the address that its key stands for, `a &&& ~~~3`. -/
theorem word?_alignDown (rom : Rom) (a : Word) : rom.word? a.alignDown = rom.word? a := by
  rw [word?, word?, Word.index_alignDown]

theorem word?_empty (a : Word) : empty.word? a = none := by
  simp only [empty, word?, Std.ExtTreeMap.getElem?_empty]

/-- An insertion is seen through every address of its memory word, and nowhere else. -/
theorem word?_insert (rom : Rom) (a b w : Word) :
    (rom.insert a w).word? b = if b.index = a.index then some w else rom.word? b := by
  simp only [insert, word?, Std.ExtTreeMap.getElem?_insert, Std.LawfulEqCmp.compare_eq_iff_eq]
  simp only [eq_comm]

/-- Images that answer alike at every address are equal. -/
theorem ext_word? {rom other : Rom} (h : ∀ a, rom.word? a = other.word? a) : rom = other := by
  cases rom; cases other
  congr 1
  apply Std.ExtTreeMap.ext_getElem?
  intro k
  simpa only [word?, Word.index_ofIndex] using h (Word.ofIndex k)

/-- The byte at address `a`. -/
def byte? (rom : Rom) (a : Word) : Option Byte :=
  (rom.word? a).map fun w => w.byte a.offset.toNat

/-- The number of words. -/
def size (rom : Rom) : Nat := rom.words.size

/-- Whether the image has no words. -/
def isEmpty (rom : Rom) : Bool := rom.words.isEmpty

/-- The words with their addresses, in ascending order. -/
def toList (rom : Rom) : List (Word × Word) :=
  rom.words.toList.map fun (k, w) => (Word.ofIndex k, w)

/-- Insert words one after the other; of two for one memory word the later stays. -/
def insertMany (rom : Rom) (entries : List (Word × Word)) : Rom :=
  entries.foldl (fun rom (a, w) => rom.insert a w) rom

/-- The image that holds the given words. -/
def ofList (entries : List (Word × Word)) : Rom :=
  empty.insertMany entries

/-- The image that holds the given words one after the other from address 0. -/
def ofWords (ws : List Word) : Rom :=
  ofList (ws.mapIdx fun i w => (BitVec.ofNat 32 (4 * i), w))

/-- Replace one byte of the image; the rest of its word stays, or is zero if the
    word was absent. -/
def putByte (rom : Rom) (a : Word) (b : Byte) : Rom :=
  let w := (rom.word? a).getD 0
  rom.insert a (Word.ofBytes (fun i => if i = a.offset.toNat then b else w.byte i) .word)

end Rom

end Rv32Sim
