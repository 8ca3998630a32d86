/-
  Rv32Sim.Memory.Bus

  The whole address space. The four device registers come first; every other
  access is made of single bytes, each taken from RAM if it was ever written
  and from the program image otherwise, and a byte that neither has reads zero.
  Only the first address of an access decides whether a device answers.
-/
import Rv32Sim.Memory.Rom
import Rv32Sim.Memory.Ram
import Rv32Sim.Device

namespace Rv32Sim

/-- The devices and the memory behind the addresses. -/
structure Bus where
  rom : Rom
  ram : Ram
  uart : Uart
  timer : Timer
  deriving DecidableEq

namespace Bus

/-- The address of the register that sends on the serial line. -/
def uartData : Word := Uart.window.base + Uart.dataOffset

/-- The address of the status register of the serial line. -/
def uartStatus : Word := Uart.window.base + Uart.statusOffset

/-- The address of the low word of the timer's counter. -/
def mtime : Word := Timer.window.base + Timer.mtimeOffset

/-- The address of the timer's comparator. -/
def mtimecmp : Word := Timer.window.base + Timer.mtimecmpOffset

/-- The address space over a program image, with untouched RAM and idle devices. -/
def ofRom (rom : Rom) : Bus := ⟨rom, .empty, .idle, .initial⟩

/-! ## Reading -/

/-- What a device answers to a read that starts at `a`. -/
def deviceRead? (bus : Bus) (a : Word) : Option Word :=
  ((Uart.window.offset? a).bind bus.uart.read?).or
    ((Timer.window.offset? a).bind bus.timer.read?)

private theorem sub_eq_iff (a base k : Word) : a - base = k ↔ a = base + k := by
  constructor <;> intro h <;> bv_omega

/-- Devices answer at their four registers and nowhere else. -/
theorem deviceRead?_eq (bus : Bus) (a : Word) :
    bus.deviceRead? a =
      if a = uartData ∨ a = uartStatus then some 0
      else if a = mtime then some (bus.timer.mtime.setWidth 32)
      else if a = mtimecmp then some bus.timer.mtimecmp
      else none := by
  simp only [deviceRead?, Window.bind_offset?, Uart.window, Timer.window, Uart.read?,
    Timer.read?, Uart.dataOffset, Uart.statusOffset, Timer.mtimeOffset, Timer.mtimecmpOffset,
    uartData, uartStatus, mtime, mtimecmp, sub_eq_iff]
  by_cases hdata : a = 0x10000000 + 0
  · subst hdata; rfl
  by_cases hstatus : a = 0x10000000 + 4
  · subst hstatus; rfl
  by_cases hmtime : a = 0x20000000 + 0
  · subst hmtime; rfl
  by_cases hcmp : a = 0x20000000 + 8
  · subst hcmp; rfl
  simp only [hdata, hstatus, hmtime, hcmp, or_self, if_false, ite_self, Option.or_none]

/-- The byte of memory at `a`. -/
def byteAt (bus : Bus) (a : Word) : Byte :=
  ((bus.ram.read? a).or (bus.rom.byte? a)).getD 0

/-- The bytes of memory from `a` on, as a word. -/
def load (bus : Bus) (a : Word) (size : AccessSize) : Word :=
  Word.ofBytes (fun i => bus.byteAt (a + BitVec.ofNat 32 i)) size

/-- Read from the address space. -/
def read (bus : Bus) (a : Word) (size : AccessSize) : Word :=
  match bus.deviceRead? a with
  | some value => value.zeroExtendFrom size
  | none => bus.load a size

/-- Whether memory has content at `a`. -/
def hasContent (bus : Bus) (a : Word) : Bool :=
  bus.ram.contains a || (bus.rom.word? a).isSome

/-- Whether memory has content at any byte of an access. -/
def isBacked (bus : Bus) (a : Word) (size : AccessSize) : Bool :=
  (List.range size.bytes).any fun i => bus.hasContent (a + BitVec.ofNat 32 i)

/-! ## Writing -/

/-- The address space after a device has taken a write that starts at `a`, if one does. -/
def deviceWrite? (bus : Bus) (a data : Word) : Option Bus :=
  let uart? := (Uart.window.offset? a).bind fun offset => bus.uart.write? offset data
  let timer? := (Timer.window.offset? a).bind fun offset => bus.timer.write? offset data
  (uart?.map fun uart => { bus with uart }).or (timer?.map fun timer => { bus with timer })

/-- Devices take writes at three of their registers and nowhere else. -/
theorem deviceWrite?_eq (bus : Bus) (a data : Word) :
    bus.deviceWrite? a data =
      if a = uartData then some { bus with uart := ⟨bus.uart.sent.push (data.byte 0)⟩ }
      else if a = uartStatus then some bus
      else if a = mtimecmp then some { bus with timer := bus.timer.setCompare data }
      else none := by
  simp only [deviceWrite?, Window.bind_offset?, Uart.window, Timer.window, Uart.write?,
    Timer.write?, Uart.dataOffset, Uart.statusOffset, Timer.mtimecmpOffset,
    uartData, uartStatus, mtimecmp, sub_eq_iff]
  by_cases hdata : a = 0x10000000 + 0
  · subst hdata; rfl
  by_cases hstatus : a = 0x10000000 + 4
  · subst hstatus; rfl
  by_cases hcmp : a = 0x20000000 + 8
  · subst hcmp; rfl
  simp only [hdata, hstatus, hcmp, if_false, ite_self, Option.map_none, Option.or_none]

/-- Write to the address space. -/
def write (bus : Bus) (a data : Word) (size : AccessSize) : Bus :=
  match bus.deviceWrite? a data with
  | some bus => bus
  | none => { bus with ram := bus.ram.store a data size.bytes }

/-- One clock tick of the devices. -/
def tick (bus : Bus) : Bus :=
  { bus with timer := bus.timer.tick }

end Bus

end Rv32Sim
