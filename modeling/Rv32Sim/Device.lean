/-
  Rv32Sim.Device

  The devices behind the memory map. A device sits behind a range of addresses, sees only
  offsets from its base, and claims only the offsets that are registers of its own. There
  are two: a serial line that only transmits, each store to whose data register sends one
  byte, and the machine timer, a counter that no store can change with a comparator.
-/
import Rv32Sim.Word

namespace Rv32Sim

/-! ## Windows -/

/-- The addresses from `base` on, `size` of them. -/
structure Window where
  base : Word
  size : Word
  deriving DecidableEq, Repr

/-- The offset of an address inside the window, if it lies there. -/
def Window.offset? (w : Window) (a : Word) : Option Word :=
  if a - w.base < w.size then some (a - w.base) else none

theorem Window.bind_offset? {α : Type} (w : Window) (a : Word) (f : Word → Option α) :
    (w.offset? a).bind f = if a - w.base < w.size then f (a - w.base) else none := by
  unfold offset?
  split <;> rfl

/-! ## The serial line

Both of its registers read as zero: the transmitter is always ready. -/

/-- A serial line, with the bytes that it has sent, oldest first. -/
structure Uart where
  sent : Array Byte
  deriving DecidableEq, Repr

/-- The character that a byte stands for on the line: the one with that code point. -/
def Byte.toChar (b : Byte) : Char := Char.ofNat b.toNat

namespace Uart

/-- The addresses of the serial line. -/
def window : Window := ⟨0x10000000, 8⟩

/-- The register that sends. -/
def dataOffset : Word := 0

/-- The register that tells the state of the line; it ignores stores. -/
def statusOffset : Word := 4

/-- A serial line that has sent nothing. -/
def idle : Uart := ⟨#[]⟩

/-- The value of the register at an offset, if one is there. -/
def read? (_ : Uart) (offset : Word) : Option Word :=
  if offset = dataOffset ∨ offset = statusOffset then some 0 else none

/-- The transmitter after a store to the register at an offset, if one is there. -/
def write? (uart : Uart) (offset data : Word) : Option Uart :=
  if offset = dataOffset then some ⟨uart.sent.push (data.byte 0)⟩
  else if offset = statusOffset then some uart
  else none

/-- The text sent, one character a byte. -/
def text (uart : Uart) : String :=
  String.ofList (uart.sent.toList.map Byte.toChar)

end Uart

/-! ## The timer

The interrupt line is up while the counter is at the comparator or past it. -/

/-- The machine timer. -/
structure Timer where
  mtime : Count
  mtimecmp : Word
  deriving DecidableEq, Repr

namespace Timer

/-- The addresses of the timer. -/
def window : Window := ⟨0x20000000, 0x10⟩

/-- The register that shows the low word of the counter. -/
def mtimeOffset : Word := 0

/-- The register that holds the comparator. -/
def mtimecmpOffset : Word := 8

/-- A timer at zero whose comparator is as far away as it can be. -/
def initial : Timer := ⟨0, BitVec.allOnes 32⟩

/-- The value of the register at an offset, if one is there. -/
def read? (timer : Timer) (offset : Word) : Option Word :=
  if offset = mtimeOffset then some (timer.mtime.setWidth 32)
  else if offset = mtimecmpOffset then some timer.mtimecmp
  else none

/-- Set the comparator. -/
def setCompare (timer : Timer) (w : Word) : Timer :=
  { timer with mtimecmp := w }

/-- The timer after a store to the register at an offset, if that register takes stores. -/
def write? (timer : Timer) (offset data : Word) : Option Timer :=
  if offset = mtimecmpOffset then some (timer.setCompare data) else none

/-- One clock tick. -/
def tick (timer : Timer) : Timer :=
  { timer with mtime := timer.mtime + 1 }

/-- Several clock ticks. -/
def advance (timer : Timer) (n : Nat) : Timer :=
  { timer with mtime := timer.mtime + BitVec.ofNat 64 n }

theorem advance_zero (timer : Timer) : timer.advance 0 = timer := by
  rw [advance, BitVec.add_zero]

/-- The first of `n + 1` ticks is a tick. -/
theorem advance_succ (timer : Timer) (n : Nat) : timer.advance (n + 1) = timer.tick.advance n := by
  rw [advance, advance, tick, Nat.add_comm, BitVec.ofNat_add, ← BitVec.add_assoc]
  rfl

/-- The level of the timer interrupt line. -/
def isPending (timer : Timer) : Bool :=
  timer.mtimecmp.toNat ≤ timer.mtime.toNat

end Timer

end Rv32Sim
