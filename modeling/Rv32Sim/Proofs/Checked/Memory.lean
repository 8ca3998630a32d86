/-
  Rv32Sim.Proofs.Checked.Memory

  Reads and writes that stop where a part of them has no result. The offset of an address in
  a device's window is a difference that must not be below zero, and the bytes of a word are
  shifted to their places. No window wraps around the end of the address space and no access
  has more than four bytes, so nothing stops (`checkedRead_eq`, `checkedWrite_eq`).
-/
import Rv32Sim.Proofs.Memory.Flat
import Rv32Sim.Proofs.Checked.Word

namespace Rv32Sim

/-! ## Windows -/

/-- An address in a window is not below its base, if the window does not wrap around. -/
theorem Window.base_le {w : Window} (hw : w.base.toNat + w.size.toNat ≤ 2 ^ 32) {a : Word}
    (ha : a - w.base < w.size) : w.base ≤ a := by
  bv_omega

/-- The offset of an address in a window, if it lies there. -/
def Window.checkedOffset? (w : Window) (a : Word) : Except Fault (Option Word) :=
  if a - w.base < w.size then do return some (← a.checkedSub w.base) else return none

theorem Window.checkedOffset?_eq {w : Window} (hw : w.base.toNat + w.size.toNat ≤ 2 ^ 32)
    (a : Word) : w.checkedOffset? a = .ok (w.offset? a) := by
  unfold checkedOffset? offset?
  by_cases ha : a - w.base < w.size
  · rw [if_pos ha, if_pos ha, Word.checkedSub_eq (base_le hw ha)]
    rfl
  · rw [if_neg ha, if_neg ha]
    rfl

/-! ## Bytes -/

theorem Word.setWidth_shiftRight_eq_byte (w : Word) (i : Nat) :
    (w >>> (8 * i)).setWidth 8 = w.byte i := by
  apply BitVec.eq_of_getLsbD_eq
  intro j hj
  rw [getLsbD_byte, BitVec.getLsbD_setWidth, BitVec.getLsbD_ushiftRight]

/-- The bits of a word to which a byte is added at position `n`. -/
theorem Word.getLsbD_or_byte (w : Word) (b : Byte) {n : Nat} (hn : n < 4) (j : Nat) :
    (w ||| b.setWidth 32 <<< (8 * n)).getLsbD j =
      (w.getLsbD j || (decide (j / 8 = n) && b.getLsbD (j % 8))) := by
  rw [BitVec.getLsbD_or, BitVec.getLsbD_shiftLeft, BitVec.getLsbD_setWidth]
  by_cases hj : j / 8 = n
  · have hpos : j - 8 * n = j % 8 := by omega
    have hfrom : ¬j < 8 * n := by omega
    have hword : j < 32 := by omega
    have hbyte : j % 8 < 32 := by omega
    simp [hj, hpos, hfrom, hword, hbyte]
  · by_cases hbefore : j < 8 * n
    · simp [hj, hbefore]
    · have hbehind : 8 ≤ j - 8 * n := by omega
      simp [hj, BitVec.getLsbD_of_ge b _ hbehind]

/-- Byte `i` of a word. -/
def Word.checkedByte (w : Word) (i : Nat) : Except Fault Byte := do
  let moved ← w.checkedShiftRight (8 * i)
  return moved.setWidth 8

theorem Word.checkedByte_eq (w : Word) {i : Nat} (hi : i < 4) :
    w.checkedByte i = .ok (w.byte i) := by
  rw [checkedByte, checkedShiftRight, shifted_eq (by omega), Fault.ok_bind,
    setWidth_shiftRight_eq_byte]
  rfl

/-- The byte of the image at an address. -/
def Rom.checkedByte? (rom : Rom) (a : Word) : Except Fault (Option Byte) :=
  match rom.word? a with
  | some w => do return some (← w.checkedByte (a &&& 0b11).toNat)
  | none => return none

theorem Rom.checkedByte?_eq (rom : Rom) (a : Word) :
    rom.checkedByte? a = .ok (rom.byte? a) := by
  have hoffset : (a &&& 0b11).toNat = a.offset.toNat := by
    rw [BitVec.toNat_and, Word.offset, BitVec.toNat_setWidth]
    exact Nat.and_two_pow_sub_one_eq_mod _ 2
  have hlt : a.offset.toNat < 4 := a.offset.isLt
  rw [checkedByte?, byte?, hoffset]
  cases rom.word? a with
  | none => rfl
  | some w =>
    show (do return some (← w.checkedByte _) : Except Fault (Option Byte)) = _
    rw [Word.checkedByte_eq w hlt]
    rfl

namespace Bus

/-- The byte of memory at an address. -/
def checkedByteAt (bus : Bus) (a : Word) : Except Fault Byte :=
  match bus.ram.read? a with
  | some b => return b
  | none => do return (← bus.rom.checkedByte? a).getD 0

theorem checkedByteAt_eq (bus : Bus) (a : Word) : bus.checkedByteAt a = .ok (bus.byteAt a) := by
  rw [checkedByteAt, byteAt, Rom.checkedByte?_eq]
  cases bus.ram.read? a <;> rfl

/-! ## Devices -/

/-- What has registers in the address space. -/
inductive Device where
  | uart
  | timer
  deriving DecidableEq, Repr

/-- The addresses of a device. -/
def Device.window : Device → Window
  | uart => Uart.window
  | timer => Timer.window

theorem Device.window_le (device : Device) :
    device.window.base.toNat + device.window.size.toNat ≤ 2 ^ 32 := by
  cases device <;> decide

/-- The device at an address, with the offset of the address in its window. -/
def checkedDeviceAt (a : Word) : Except Fault (Option (Device × Word)) := do
  match ← Device.uart.window.checkedOffset? a with
  | some offset => return some (.uart, offset)
  | none =>
    match ← Device.timer.window.checkedOffset? a with
    | some offset => return some (.timer, offset)
    | none => return none

/-- The device at an address, by the windows. -/
theorem checkedDeviceAt_eq (a : Word) :
    checkedDeviceAt a = .ok (((Uart.window.offset? a).map (Device.uart, ·)).or
      ((Timer.window.offset? a).map (Device.timer, ·))) := by
  rw [checkedDeviceAt, Window.checkedOffset?_eq (Device.window_le .uart),
    Window.checkedOffset?_eq (Device.window_le .timer), Fault.ok_bind, Fault.ok_bind,
    Device.window, Device.window]
  cases Uart.window.offset? a with
  | some offset => rfl
  | none => cases Timer.window.offset? a <;> rfl

/-- No address is in both windows. -/
theorem offset?_timer_of_uart {a offset : Word} (h : Uart.window.offset? a = some offset) :
    Timer.window.offset? a = none := by
  apply if_neg
  intro htimer
  have huart : a - Uart.window.base < Uart.window.size := by
    by_contra hnot
    rw [Window.offset?, if_neg hnot] at h
    cases h
  simp only [Uart.window, Timer.window] at huart htimer
  bv_omega

/-! ## Reads -/

/-- What a device answers to a read. -/
def checkedDeviceRead? (bus : Bus) (a : Word) : Except Fault (Option Word) := do
  match ← checkedDeviceAt a with
  | some (.uart, offset) => return bus.uart.read? offset
  | some (.timer, offset) => return bus.timer.read? offset
  | none => return none

theorem checkedDeviceRead?_eq (bus : Bus) (a : Word) :
    bus.checkedDeviceRead? a = .ok (bus.deviceRead? a) := by
  rw [checkedDeviceRead?, checkedDeviceAt_eq, Fault.ok_bind, deviceRead?]
  cases huart : Uart.window.offset? a with
  | some offset =>
    -- an address of the line that is no register is none of the timer's either
    rw [offset?_timer_of_uart huart]
    exact congrArg Except.ok Option.or_none.symm
  | none => cases Timer.window.offset? a <;> rfl

/-- Add byte `i` of an access to the bytes before it. -/
def checkedLoadByte (bus : Bus) (a acc : Word) (i : Nat) : Except Fault Word := do
  let b ← bus.checkedByteAt (a + BitVec.ofNat 32 i)
  let moved ← Word.checkedShiftLeft (b.setWidth 32) (8 * i)
  return acc ||| moved

/-- The first bytes of an access, bit by bit. -/
theorem foldlM_checkedLoadByte (bus : Bus) (a : Word) {n : Nat} (hn : n ≤ 4) :
    ∃ w : Word, (List.range n).foldlM (bus.checkedLoadByte a) 0 = .ok w ∧
      ∀ j, w.getLsbD j =
        (decide (j < 8 * n) && (bus.byteAt (a + BitVec.ofNat 32 (j / 8))).getLsbD (j % 8)) := by
  induction n with
  | zero => exact ⟨0, rfl, fun j => by simp⟩
  | succ n ih =>
    obtain ⟨w, hw, hbits⟩ := ih (by omega)
    let next : Word := w ||| (bus.byteAt (a + BitVec.ofNat 32 n)).setWidth 32 <<< (8 * n)
    have hstep : bus.checkedLoadByte a w n = .ok next := by
      rw [checkedLoadByte, checkedByteAt_eq, Fault.ok_bind, Word.checkedShiftLeft,
        Word.shifted_eq (by omega)]
      rfl
    refine ⟨next, ?_, fun j => ?_⟩
    · rw [List.range_succ, List.foldlM_append, hw, Fault.ok_bind, List.foldlM_cons, hstep]
      rfl
    · show (w ||| (bus.byteAt _).setWidth 32 <<< (8 * n)).getLsbD j = _
      rw [Word.getLsbD_or_byte _ _ (by omega), hbits]
      -- the last byte has the bits that the ones before it do not reach
      by_cases hj : j / 8 = n
      · have hbefore : ¬j < 8 * n := by omega
        have hlast : j < 8 * (n + 1) := by omega
        simp [hj, hbefore, hlast]
      · have hsame : j < 8 * n ↔ j < 8 * (n + 1) := by omega
        simp [hj, hsame]

/-- Read from the address space. -/
def checkedRead (bus : Bus) (a : Word) (size : AccessSize) : Except Fault Word := do
  match ← bus.checkedDeviceRead? a with
  | some value => value.checkedTruncate size.bytes
  | none => (List.range size.bytes).foldlM (bus.checkedLoadByte a) 0

@[simp] theorem checkedRead_eq (bus : Bus) (a : Word) (size : AccessSize) :
    bus.checkedRead a size = .ok (bus.read a size) := by
  rw [checkedRead, checkedDeviceRead?_eq, Fault.ok_bind, read]
  cases bus.deviceRead? a with
  | some value => exact value.checkedTruncate_eq size
  | none =>
    obtain ⟨w, hw, hbits⟩ := foldlM_checkedLoadByte bus a size.bytes_le
    have hload : w = bus.load a size := by
      apply BitVec.eq_of_getLsbD_eq
      intro j _
      rw [hbits, load, Word.getLsbD_ofBytes]
    rw [← hload]
    exact hw

/-! ## Writes -/

/-- The address space after a device has taken a write, if one does. -/
def checkedDeviceWrite? (bus : Bus) (a data : Word) : Except Fault (Option Bus) := do
  match ← checkedDeviceAt a with
  | some (.uart, offset) =>
    return (bus.uart.write? offset data).map fun uart => { bus with uart }
  | some (.timer, offset) =>
    return (bus.timer.write? offset data).map fun timer => { bus with timer }
  | none => return none

theorem checkedDeviceWrite?_eq (bus : Bus) (a data : Word) :
    bus.checkedDeviceWrite? a data = .ok (bus.deviceWrite? a data) := by
  rw [checkedDeviceWrite?, checkedDeviceAt_eq, Fault.ok_bind, deviceWrite?]
  cases huart : Uart.window.offset? a with
  | some offset =>
    rw [offset?_timer_of_uart huart]
    exact congrArg Except.ok Option.or_none.symm
  | none => cases Timer.window.offset? a <;> rfl

/-- Store byte `i` of a word. -/
def checkedStoreByte (a data : Word) (ram : Ram) (i : Nat) : Except Fault Ram := do
  let b ← data.checkedByte i
  return ram.write (a + BitVec.ofNat 32 i) b

theorem foldlM_checkedStoreByte (ram : Ram) (a data : Word) {n : Nat} (hn : n ≤ 4) :
    (List.range n).foldlM (checkedStoreByte a data) ram = .ok (ram.store a data n) := by
  induction n with
  | zero => rfl
  | succ n ih =>
    rw [List.range_succ, List.foldlM_append, ih (by omega), Fault.ok_bind, List.foldlM_cons,
      checkedStoreByte, Word.checkedByte_eq _ (by omega)]
    rfl

/-- Write to the address space. -/
def checkedWrite (bus : Bus) (a data : Word) (size : AccessSize) : Except Fault Bus := do
  match ← bus.checkedDeviceWrite? a data with
  | some bus => return bus
  | none =>
    let ram ← (List.range size.bytes).foldlM (checkedStoreByte a data) bus.ram
    return { bus with ram }

@[simp] theorem checkedWrite_eq (bus : Bus) (a data : Word) (size : AccessSize) :
    bus.checkedWrite a data size = .ok (bus.write a data size) := by
  rw [checkedWrite, checkedDeviceWrite?_eq, Fault.ok_bind, write]
  cases bus.deviceWrite? a data with
  | some bus => rfl
  | none =>
    show (do let ram ← (List.range size.bytes).foldlM _ _; _ : Except Fault Bus) = _
    rw [foldlM_checkedStoreByte _ _ _ size.bytes_le]
    rfl

end Bus

end Rv32Sim
