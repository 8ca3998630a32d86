/-
  Rv32Sim.Proofs.Memory.Backing

  Where a byte is kept. Address spaces that show the same bytes and have content at the
  same addresses are alike, whichever of their bytes are in RAM and whichever in the
  image; reads cannot tell them apart (`Alike.read`, `Alike.isBacked`), and writes keep
  them alike (`Alike.write`). An image written word by word is like one that was there from
  the beginning (`alike_performAll_writes`). Content comes and does not go
  (`hasContent_performAll`).
-/
import Rv32Sim.Proofs.Memory.Flat
import Rv32Sim.Proofs.Memory.Rom

namespace Rv32Sim

namespace Bus

/-! ## What a write does -/

/-- A write gives content to the addresses that it covers. -/
theorem hasContent_write (bus : Bus) (a data : Word) (size : AccessSize) (x : Word) :
    (bus.write a data size).hasContent x =
      (decide (¬TakesWrite a ∧ (x - a).toNat < size.bytes) || bus.hasContent x) := by
  by_cases h : TakesWrite a
  · obtain ⟨hram, hrom⟩ := write_of_takesWrite bus data size h
    have hnot : ¬(¬TakesWrite a ∧ (x - a).toNat < size.bytes) := fun hx => hx.1 h
    rw [decide_eq_false hnot, Bool.false_or, hasContent, hasContent, hram, hrom]
  · rw [write_of_not_takesWrite bus data size h, hasContent, hasContent,
      Ram.contains_eq_isSome, Ram.contains_eq_isSome]
    have hsize : size.bytes ≤ 0x100000000 := Nat.le_trans size.bytes_le (by decide)
    rw [Ram.read?_store _ _ _ _ _ hsize]
    by_cases hx : (x - a).toNat < size.bytes
    · rw [if_pos hx, decide_eq_true (And.intro h hx), Bool.true_or]
      rfl
    · have hnot : ¬(¬TakesWrite a ∧ (x - a).toNat < size.bytes) := fun hx' => hx hx'.2
      rw [if_neg hx, decide_eq_false hnot, Bool.false_or]

/-- A write goes to one of three device registers, or to RAM. -/
theorem write_cases (bus : Bus) (a data : Word) (size : AccessSize) :
    (a = uartData ∧
      bus.write a data size = { bus with uart := ⟨bus.uart.sent.push (data.byte 0)⟩ }) ∨
    (a = uartStatus ∧ bus.write a data size = bus) ∨
    (a = mtimecmp ∧
      bus.write a data size = { bus with timer := bus.timer.setCompare data }) ∨
    (¬TakesWrite a ∧
      bus.write a data size = { bus with ram := bus.ram.store a data size.bytes }) := by
  by_cases h : TakesWrite a
  · rcases h with rfl | rfl | rfl
    · exact Or.inl ⟨rfl, rfl⟩
    · exact Or.inr (Or.inl ⟨rfl, rfl⟩)
    · exact Or.inr (Or.inr (Or.inl ⟨rfl, rfl⟩))
  · exact Or.inr (Or.inr (Or.inr ⟨h, write_of_not_takesWrite bus data size h⟩))

/-- The serial line sends the low byte of what is written to its data register. -/
theorem uart_write (bus : Bus) (a data : Word) (size : AccessSize) :
    (bus.write a data size).uart =
      if a = uartData then ⟨bus.uart.sent.push (data.byte 0)⟩ else bus.uart := by
  rcases bus.write_cases a data size with ⟨rfl, h⟩ | ⟨rfl, h⟩ | ⟨rfl, h⟩ | ⟨hnot, h⟩
  · rw [h, if_pos rfl]
  · rw [h, if_neg (by decide)]
  · rw [h, if_neg (by decide)]
  · rw [h, if_neg fun hdata => hnot (Or.inl hdata)]

/-- The timer takes what is written to its comparator. -/
theorem timer_write (bus : Bus) (a data : Word) (size : AccessSize) :
    (bus.write a data size).timer =
      if a = mtimecmp then bus.timer.setCompare data else bus.timer := by
  rcases bus.write_cases a data size with ⟨rfl, h⟩ | ⟨rfl, h⟩ | ⟨rfl, h⟩ | ⟨hnot, h⟩
  · rw [h, if_neg (by decide)]
  · rw [h, if_neg (by decide)]
  · rw [h, if_pos rfl]
  · rw [h, if_neg fun hcmp => hnot (Or.inr (Or.inr hcmp))]

/-! ## Address spaces that are alike -/

/-- The same devices, the same bytes and content at the same addresses; what is in RAM and
    what in the image may differ. -/
structure Alike (bus bus' : Bus) : Prop where
  byteAt : ∀ a, bus'.byteAt a = bus.byteAt a
  hasContent : ∀ a, bus'.hasContent a = bus.hasContent a
  uart : bus'.uart = bus.uart
  timer : bus'.timer = bus.timer

namespace Alike

variable {bus bus' : Bus}

theorem refl (bus : Bus) : bus.Alike bus := ⟨fun _ => rfl, fun _ => rfl, rfl, rfl⟩

theorem load (h : bus.Alike bus') (a : Word) (size : AccessSize) :
    bus'.load a size = bus.load a size := by
  unfold Bus.load
  simp only [h.byteAt]

/-- Reads answer alike. -/
theorem read (h : bus.Alike bus') (a : Word) (size : AccessSize) :
    bus'.read a size = bus.read a size := by
  have hdevice : bus'.deviceRead? a = bus.deviceRead? a := by
    rw [deviceRead?_eq, deviceRead?_eq, h.timer]
  unfold Bus.read
  rw [hdevice, h.load]

theorem isBacked (h : bus.Alike bus') (a : Word) (size : AccessSize) :
    bus'.isBacked a size = bus.isBacked a size := by
  unfold Bus.isBacked
  simp only [h.hasContent]

theorem write (h : bus.Alike bus') (a data : Word) (size : AccessSize) :
    (bus.write a data size).Alike (bus'.write a data size) where
  byteAt x := by rw [byteAt_write, byteAt_write, h.byteAt]
  hasContent x := by rw [hasContent_write, hasContent_write, h.hasContent]
  uart := by rw [uart_write, uart_write, h.uart]
  timer := by rw [timer_write, timer_write, h.timer]

theorem tick (h : bus.Alike bus') : bus.tick.Alike bus'.tick where
  byteAt := h.byteAt
  hasContent := h.hasContent
  uart := h.uart
  timer := congrArg Timer.tick h.timer

end Alike

/-! ## An image that is written -/

theorem hasContent_ofRom (rom : Rom) (x : Word) :
    (ofRom rom).hasContent x = (rom.word? x).isSome := by
  rw [hasContent, Ram.contains_eq_isSome]
  simp only [ofRom, Ram.empty, Ram.read?, Std.ExtTreeMap.getElem?_empty, Option.isSome_none,
    Bool.false_or]

/-- A word that is written is like one of the image. -/
theorem Alike.writeWord {rom : Rom} {bus : Bus} (h : (ofRom rom).Alike bus) {a : Word}
    (ha : a.offset = 0) (hdevice : ¬TakesWrite a) (w : Word) :
    (ofRom (rom.insert a w)).Alike (bus.write a w .word) := by
  -- an aligned word covers the addresses of one memory word
  have hcovers (x : Word) : (x - a).toNat < AccessSize.word.bytes ↔ x.index = a.index := by
    rw [Word.index_eq_iff, Word.ofIndex_index_of_offset ha]
    rfl
  refine ⟨fun x => ?_, fun x => ?_, ?_, ?_⟩
  · rw [byteAt_write, h.byteAt, byteAt_ofRom, byteAt_ofRom, Rom.byte?, Rom.byte?,
      Rom.word?_insert]
    by_cases hx : x.index = a.index
    · -- the position of a byte in the access is that in its memory word
      have hpos : (x - a).toNat = x.offset.toNat := by
        rw [← Word.toNat_sub_ofIndex_index, hx, Word.ofIndex_index_of_offset ha]
      rw [if_pos ⟨hdevice, (hcovers x).2 hx⟩, if_pos hx, hpos]
      rfl
    · rw [if_neg (fun hx' => hx ((hcovers x).1 hx'.2)), if_neg hx]
  · rw [hasContent_write, h.hasContent, hasContent_ofRom, hasContent_ofRom, Rom.word?_insert]
    by_cases hx : x.index = a.index
    · rw [if_pos hx, decide_eq_true (And.intro hdevice ((hcovers x).2 hx)), Bool.true_or]
      rfl
    · have hnot : ¬(¬TakesWrite a ∧ (x - a).toNat < AccessSize.word.bytes) :=
        fun hx' => hx ((hcovers x).1 hx'.2)
      rw [if_neg hx, decide_eq_false hnot, Bool.false_or]
  · -- no device takes the write
    have hdata : a ≠ uartData := fun heq => hdevice (Or.inl heq)
    rw [uart_write, if_neg hdata]
    exact h.uart
  · have hcmp : a ≠ mtimecmp := fun heq => hdevice (Or.inr (Or.inr heq))
    rw [timer_write, if_neg hcmp]
    exact h.timer

/-- The writes that put words into memory. -/
def wordWrites (entries : List (Word × Word)) : List Operation :=
  entries.map fun (a, w) => .write a w .word

/-- Words that are written one after the other are like words of the image. -/
theorem alike_performAll_writes {rom : Rom} {bus : Bus} (h : (ofRom rom).Alike bus)
    {entries : List (Word × Word)} (haligned : ∀ e ∈ entries, e.1.offset = 0)
    (hdevice : ∀ e ∈ entries, ¬TakesWrite e.1) :
    (ofRom (rom.insertMany entries)).Alike (bus.performAll (wordWrites entries)) := by
  induction entries generalizing rom bus with
  | nil => exact h
  | cons e entries ih =>
    rw [List.forall_mem_cons] at haligned hdevice
    exact ih (h.writeWord haligned.1 hdevice.1 e.2) haligned.2 hdevice.2

/-! ## Content after a history -/

theorem lastByte?_append (ops ops' : List Operation) (x : Word) :
    lastByte? (ops ++ ops') x = (lastByte? ops' x).or (lastByte? ops x) := by
  rw [lastByte?, List.filterMap_append, List.getLast?_append, lastByte?, lastByte?]

theorem hasContent_perform (bus : Bus) (op : Operation) (x : Word) :
    (bus.perform op).hasContent x = ((op.byteAt? x).isSome || bus.hasContent x) := by
  cases op with
  | write a data size =>
    rw [perform, hasContent_write, Operation.byteAt?]
    split
    next hx => rw [decide_eq_true hx, Option.isSome_some]
    next hx => rw [decide_eq_false hx, Option.isSome_none]
  | tick => rfl

/-- A history gives content to the addresses that its writes cover, and takes none away. -/
theorem hasContent_performAll (bus : Bus) (ops : List Operation) (x : Word) :
    (bus.performAll ops).hasContent x = ((lastByte? ops x).isSome || bus.hasContent x) := by
  induction ops generalizing bus with
  | nil => rfl
  | cons op ops ih =>
    show ((bus.perform op).performAll ops).hasContent x = _
    rw [ih, hasContent_perform, lastByte?_cons, Option.isSome_or, Bool.or_assoc]

/-- The byte that an address has after a history over a program image: the one that was
    written there last, else that of the image, if there is one. -/
def content? (rom : Rom) (ops : List Operation) (x : Word) : Option Byte :=
  (lastByte? ops x).or (rom.byte? x)

theorem hasContent_eq_isSome_content? (rom : Rom) (ops : List Operation) (x : Word) :
    ((ofRom rom).performAll ops).hasContent x = (content? rom ops x).isSome := by
  rw [hasContent_performAll, hasContent_ofRom, content?, Option.isSome_or, Rom.byte?,
    Option.isSome_map]

theorem byteAt_eq_getD_content? (rom : Rom) (ops : List Operation) (x : Word) :
    ((ofRom rom).performAll ops).byteAt x = (content? rom ops x).getD 0 := by
  rw [byteAt_performAll, byteAt_ofRom, content?]
  cases lastByte? ops x <;> rfl

/-- What a write to memory covers has the bytes that it wrote, until they are written again. -/
theorem content?_of_write (rom : Rom) (before : List Operation) {after : List Operation} {a : Word}
    (hdevice : ¬TakesWrite a) (w : Word) {size : AccessSize} {i : Nat} (hi : i < size.bytes)
    (hafter : lastByte? after (a + BitVec.ofNat 32 i) = none) :
    content? rom (before ++ .write a w size :: after) (a + BitVec.ofNat 32 i) =
      some (w.byte i) := by
  have hfour : i < 4 := Nat.lt_of_lt_of_le hi size.bytes_le
  have hback : (a + BitVec.ofNat 32 i - a).toNat = i := by bv_omega
  have hwrite : (Operation.write a w size).byteAt? (a + BitVec.ofNat 32 i) = some (w.byte i) := by
    rw [Operation.byteAt?, hback, if_pos ⟨hdevice, hi⟩]
  rw [content?, lastByte?_append, lastByte?_cons, hafter, hwrite]
  rfl

end Bus

end Rv32Sim
