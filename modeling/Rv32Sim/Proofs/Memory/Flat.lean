/-
  Rv32Sim.Proofs.Memory.Flat

  The address space as one flat memory of bytes. After any history of writes
  and clock ticks, the byte at an address is the one that the last write to
  cover it put there, and that of the program image if no write did. Writes are
  of three sizes, overlap one another and wrap around the end of the address
  space; those that start at a device register do not reach memory, wherever
  they end.

  The view that carries the induction is `Bus.byteAt`: one operation changes it
  as `Operation.byteAt?` says (`byteAt_perform`), and a history as its last such
  operation (`byteAt_performAll`).
-/
import Rv32Sim.Memory.Bus

namespace Rv32Sim

theorem AccessSize.bytes_le (size : AccessSize) : size.bytes ≤ 4 := by
  cases size <;> decide

namespace Bus

/-! ## The addresses of devices -/

/-- Devices answer the reads that start at one of their four registers. -/
def AnswersRead (a : Word) : Prop :=
  a = uartData ∨ a = uartStatus ∨ a = mtime ∨ a = mtimecmp

/-- Devices take the writes that start at one of these three registers; the counter of
    the timer takes none. -/
def TakesWrite (a : Word) : Prop :=
  a = uartData ∨ a = uartStatus ∨ a = mtimecmp

instance (a : Word) : Decidable (AnswersRead a) :=
  inferInstanceAs (Decidable (_ ∨ _ ∨ _ ∨ _))

instance (a : Word) : Decidable (TakesWrite a) :=
  inferInstanceAs (Decidable (_ ∨ _ ∨ _))

/-- A write that a device takes leaves memory alone. -/
theorem write_of_takesWrite (bus : Bus) {a : Word} (data : Word) (size : AccessSize)
    (h : TakesWrite a) :
    (bus.write a data size).ram = bus.ram ∧ (bus.write a data size).rom = bus.rom := by
  unfold write
  rw [deviceWrite?_eq]
  by_cases hdata : a = uartData
  · rw [if_pos hdata]
    exact ⟨rfl, rfl⟩
  by_cases hstatus : a = uartStatus
  · rw [if_neg hdata, if_pos hstatus]
    exact ⟨rfl, rfl⟩
  have hcmp : a = mtimecmp := (h.resolve_left hdata).resolve_left hstatus
  rw [if_neg hdata, if_neg hstatus, if_pos hcmp]
  exact ⟨rfl, rfl⟩

/-- Every other write goes to RAM and nowhere else. -/
theorem write_of_not_takesWrite (bus : Bus) {a : Word} (data : Word) (size : AccessSize)
    (h : ¬ TakesWrite a) :
    bus.write a data size = { bus with ram := bus.ram.store a data size.bytes } := by
  obtain ⟨hdata, hstatus, hcmp⟩ : a ≠ uartData ∧ a ≠ uartStatus ∧ a ≠ mtimecmp := by
    simpa only [TakesWrite, not_or] using h
  unfold write
  rw [deviceWrite?_eq, if_neg hdata, if_neg hstatus, if_neg hcmp]

theorem write_rom (bus : Bus) (a data : Word) (size : AccessSize) :
    (bus.write a data size).rom = bus.rom := by
  by_cases h : TakesWrite a
  · exact (write_of_takesWrite bus data size h).2
  · rw [write_of_not_takesWrite bus data size h]

/-- A read that no device answers is put together from memory. -/
theorem read_of_not_answersRead (bus : Bus) {a : Word} (size : AccessSize)
    (h : ¬ AnswersRead a) : bus.read a size = bus.load a size := by
  obtain ⟨hdata, hstatus, hmtime, hcmp⟩ :
      a ≠ uartData ∧ a ≠ uartStatus ∧ a ≠ mtime ∧ a ≠ mtimecmp := by
    simpa only [AnswersRead, not_or] using h
  unfold read
  rw [deviceRead?_eq, if_neg (not_or.2 ⟨hdata, hstatus⟩), if_neg hmtime, if_neg hcmp]

/-! ## Bytes -/

/-- The bytes of a loaded word are those of memory, then zeros. -/
theorem byte_load (bus : Bus) (a : Word) (size : AccessSize) (i : Nat) :
    (bus.load a size).byte i =
      if i < size.bytes then bus.byteAt (a + BitVec.ofNat 32 i) else 0 := by
  rw [load, Word.byte_ofBytes]

/-- A write to memory is seen at the addresses that it covers and nowhere else. -/
theorem byteAt_write (bus : Bus) (a data : Word) (size : AccessSize) (x : Word) :
    (bus.write a data size).byteAt x =
      if ¬ TakesWrite a ∧ (x - a).toNat < size.bytes then data.byte (x - a).toNat
      else bus.byteAt x := by
  by_cases h : TakesWrite a
  · obtain ⟨hram, hrom⟩ := write_of_takesWrite bus data size h
    rw [if_neg (fun hx => hx.1 h), byteAt, byteAt, hram, hrom]
  · rw [write_of_not_takesWrite bus data size h]
    unfold byteAt
    have hsize : size.bytes ≤ 0x100000000 := Nat.le_trans size.bytes_le (by decide)
    rw [Ram.read?_store _ _ _ _ _ hsize]
    by_cases hx : (x - a).toNat < size.bytes
    · rw [if_pos hx, if_pos ⟨h, hx⟩]
      rfl
    · rw [if_neg hx, if_neg (fun hx' => hx hx'.2)]

/-! ## Histories -/

/-- What happens to an address space over time. -/
inductive Operation where
  | write (a data : Word) (size : AccessSize)
  | tick
  deriving DecidableEq, Repr

/-- Carry out one operation. -/
def perform (bus : Bus) : Operation → Bus
  | .write a data size => bus.write a data size
  | .tick => bus.tick

/-- Carry out a history of operations. -/
def performAll (bus : Bus) (ops : List Operation) : Bus := ops.foldl perform bus

/-- The byte that an operation puts at address `x`, if it is a write to memory that
    covers `x`. The addresses that a write covers are counted from its first one, so
    they go on at 0 behind the last address. -/
def Operation.byteAt? (op : Operation) (x : Word) : Option Byte :=
  match op with
  | write a data size =>
    if ¬ TakesWrite a ∧ (x - a).toNat < size.bytes then some (data.byte (x - a).toNat)
    else none
  | tick => none

/-- The byte that the last write to cover address `x` put there, if there was one. -/
def lastByte? (ops : List Operation) (x : Word) : Option Byte :=
  (ops.filterMap fun op => op.byteAt? x).getLast?

theorem lastByte?_cons (op : Operation) (ops : List Operation) (x : Word) :
    lastByte? (op :: ops) x = (lastByte? ops x).or (op.byteAt? x) := by
  unfold lastByte?
  rw [List.filterMap_cons]
  cases op.byteAt? x with
  | none => exact (Option.or_none ..).symm
  | some b =>
    rw [List.getLast?_cons]
    cases (List.filterMap (fun op => op.byteAt? x) ops).getLast? <;> rfl

/-- What one operation does to the bytes of memory. -/
theorem byteAt_perform (bus : Bus) (op : Operation) (x : Word) :
    (bus.perform op).byteAt x = (op.byteAt? x).getD (bus.byteAt x) := by
  cases op with
  | write a data size =>
    rw [perform, byteAt_write, Operation.byteAt?]
    split <;> rfl
  | tick => rfl

/-- What a history does to the bytes of memory. -/
theorem byteAt_performAll (bus : Bus) (ops : List Operation) (x : Word) :
    (bus.performAll ops).byteAt x = (lastByte? ops x).getD (bus.byteAt x) := by
  induction ops generalizing bus with
  | nil => rfl
  | cons op ops ih =>
    have hstep : (bus.performAll (op :: ops)).byteAt x =
        ((bus.perform op).performAll ops).byteAt x := rfl
    rw [hstep, ih, byteAt_perform, lastByte?_cons]
    cases lastByte? ops x <;> rfl

theorem rom_perform (bus : Bus) (op : Operation) : (bus.perform op).rom = bus.rom := by
  cases op with
  | write a data size => exact write_rom bus a data size
  | tick => rfl

theorem rom_performAll (bus : Bus) (ops : List Operation) :
    (bus.performAll ops).rom = bus.rom := by
  induction ops generalizing bus with
  | nil => rfl
  | cons op ops ih =>
    have hstep : (bus.performAll (op :: ops)).rom = ((bus.perform op).performAll ops).rom := rfl
    rw [hstep, ih, rom_perform]

/-- Before any write, memory holds the program image, and zeros elsewhere. -/
theorem byteAt_ofRom (rom : Rom) (x : Word) : (ofRom rom).byteAt x = (rom.byte? x).getD 0 := by
  have hram : (ofRom rom).ram.read? x = none := by
    simp only [ofRom, Ram.empty, Ram.read?, Std.ExtTreeMap.getElem?_empty]
  rw [byteAt, hram, Option.none_or]
  rfl

/-- **Flat memory.** After any history over a program image, a read that no device
    answers sees at each address the byte of the last write to cover it, else that of
    the image, else zero, and its bytes above the access are zero. A write that a device
    takes changes nothing in memory, and the image stays as it was. -/
theorem flat_memory (rom : Rom) (ops : List Operation) :
    let bus := (ofRom rom).performAll ops
    (∀ (a : Word) (size : AccessSize), ¬ AnswersRead a → ∀ i : Nat,
      (bus.read a size).byte i =
        if i < size.bytes then
          (lastByte? ops (a + BitVec.ofNat 32 i)).getD
            ((rom.byte? (a + BitVec.ofNat 32 i)).getD 0)
        else 0) ∧
    (∀ (a data : Word) (size : AccessSize), TakesWrite a →
      (bus.write a data size).ram = bus.ram ∧
      ∀ x, (bus.write a data size).byteAt x = bus.byteAt x) ∧
    bus.rom = rom := by
  intro bus
  refine ⟨?_, ?_, rom_performAll (ofRom rom) ops⟩
  · intro a size ha i
    rw [read_of_not_answersRead bus size ha, byte_load, byteAt_performAll, byteAt_ofRom]
  · intro a data size ha
    refine ⟨(write_of_takesWrite bus data size ha).1, ?_⟩
    intro x
    rw [byteAt_write, if_neg (fun hx => hx.1 ha)]

/-- A word at the end of the address space: its bytes come from the image, from a byte
    written later, and from a word that wraps around; the byte sent on the serial line is
    no byte of memory. -/
theorem flat_memory_across_zero :
    let rom := Rom.ofList [(0xFFFFFFFC, 0x44332211)]
    let ops : List Operation :=
      [.write 0xFFFFFFFE 0xDDCCBBAA .word, .tick, .write 0xFFFFFFFF 0x1277 .byte,
       .write uartData 0x41 .byte]
    let bus := (ofRom rom).performAll ops
    ¬ AnswersRead 0xFFFFFFFD ∧ TakesWrite uartData ∧
    (bus.read 0xFFFFFFFD .word).byte 0 = 0x22 ∧ (bus.read 0xFFFFFFFD .word).byte 1 = 0xAA ∧
    (bus.read 0xFFFFFFFD .word).byte 2 = 0x77 ∧ (bus.read 0xFFFFFFFD .word).byte 3 = 0xCC ∧
    (bus.read 0xFFFFFFFD .half).byte 2 = 0 ∧
    (bus.write uartData 0x42 .word).ram = bus.ram := by
  intro rom ops bus
  have hread : ¬ AnswersRead 0xFFFFFFFD := by decide
  have hwrite : TakesWrite uartData := by decide
  obtain ⟨bytes, taken, -⟩ := flat_memory rom ops
  refine ⟨hread, hwrite, ?_, ?_, ?_, ?_, ?_, (taken uartData 0x42 .word hwrite).1⟩
  · exact (bytes _ .word hread 0).trans (by decide)
  · exact (bytes _ .word hread 1).trans (by decide)
  · exact (bytes _ .word hread 2).trans (by decide)
  · exact (bytes _ .word hread 3).trans (by decide)
  · exact (bytes _ .half hread 2).trans (by decide)

end Bus

end Rv32Sim
