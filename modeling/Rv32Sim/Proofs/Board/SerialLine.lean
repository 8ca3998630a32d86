/-
  Rv32Sim.Proofs.Board.SerialLine

  What the serial line has sent. A store whose first address is that of the data register
  sends one byte and does nothing else, whatever its size and whoever makes it; nothing
  else reaches the line (`Bus.Sends`). So the text of a board is the list of these stores
  in its history, one character each (`text_eq_stores`).
-/
import Rv32Sim.Proofs.Board.Comparator

namespace Rv32Sim

/-! ## Characters -/

theorem Byte.toNat_toChar (b : Byte) : b.toChar.toNat = b.toNat := by
  have hlt : b.toNat < 256 := b.isLt
  have hvalid : b.toNat.isValidChar := Or.inl (by omega)
  rw [toChar, Char.ofNat, dif_pos hvalid]
  rfl

theorem Word.toNat_byte_zero (w : Word) : (w.byte 0).toNat = w.toNat % 256 := by
  rw [toNat_byte, Nat.pow_zero, Nat.div_one]

/-- The code points of the text are the bytes. -/
theorem Uart.map_toNat_text (uart : Uart) :
    uart.text.toList.map Char.toNat = uart.sent.toList.map BitVec.toNat := by
  rw [text, String.toList_ofList, List.map_map]
  exact List.map_congr_left fun b _ => b.toNat_toChar

/-! ## What goes out -/

/-- From `bus` to `bus'` the line sends the low byte of the given word, and memory and
    timer stay; or without a word it sends nothing. -/
structure Bus.Sends (bus : Bus) (data? : Option Word) (bus' : Bus) : Prop where
  sent : bus'.uart.sent.toList = bus.uart.sent.toList ++ (data?.map (·.byte 0)).toList
  ram : data?.isSome → bus'.ram = bus.ram
  timer : data?.isSome → bus'.timer = bus.timer

namespace Bus

theorem sends_none {bus bus' : Bus} (huart : bus'.uart = bus.uart) : bus.Sends none bus' where
  sent := by
    rw [huart]
    exact (List.append_nil _).symm
  ram := nofun
  timer := nofun

/-- A write sends exactly if its first address is that of the data register. -/
theorem sends_write (bus : Bus) (a data : Word) (size : AccessSize) :
    bus.Sends (if a = uartData then some data else none) (bus.write a data size) := by
  by_cases ha : a = uartData
  · subst ha
    rw [if_pos rfl]
    exact ⟨Array.toList_push, fun _ => rfl, fun _ => rfl⟩
  · rw [if_neg ha]
    apply sends_none
    rw [uart_write, if_neg ha]

end Bus

namespace Hart

/-- The word that a word sends on the serial line, if it is a store that sends. -/
def sentWord? (h : Hart) (w : Word) : Option Word :=
  if h.storeTarget? w = some Bus.uartData then some (h.regs.get w.rs2) else none

theorem sends_dispatch (h : Hart) (w : Word) :
    h.bus.Sends (h.sentWord? w) (h.dispatch w).1.bus := by
  rcases h.storeTarget?_cases w with ⟨size, htarget, hbus⟩ | ⟨htarget, hbus⟩
  · rw [sentWord?, htarget, hbus]
    simpa only [Option.some.injEq] using h.bus.sends_write (h.storeAddress w) _ size
  · rw [sentWord?, htarget, hbus, if_neg (Option.some_ne_none _).symm]
    exact Bus.sends_none rfl

end Hart

namespace Board

/-- The word that an entry of a history sends on the serial line, if it sends one. A cycle
    executes the word that the hart fetches once the timer has ticked. -/
def sentWord? : Board × Request → Option Word
  | (b, .step) => b.hart.tick.sentWord? b.hart.tick.fetch
  | (_, .writeMem a data _) => if a = Bus.uartData then some data else none
  | _ => none

/-- The address space that an entry of a history works on: in a cycle the timer has ticked
    before the instruction. -/
def busOf : Board × Request → Bus
  | (b, .step) => b.hart.bus.tick
  | (b, _) => b.hart.bus

theorem uart_busOf (b : Board) (r : Request) : (busOf (b, r)).uart = b.hart.bus.uart := by
  cases r <;> rfl

/-! ## Histories -/

/-- One entry of a history sends what it stores to the data register. -/
theorem sends_serve (b : Board) (r : Request) :
    (busOf (b, r)).Sends (sentWord? (b, r)) (b.serve r).1.hart.bus := by
  cases r with
  | step =>
    show Bus.Sends _ _ b.step.1.hart.bus
    rw [step_bus]
    exact b.hart.tick.sends_dispatch b.hart.tick.fetch
  | setInterruptLine i level =>
    apply Bus.sends_none
    show (b.setInterruptLine i level).hart.bus.uart = _
    unfold setInterruptLine
    split <;> rfl
  | writeCsr a w => exact Bus.sends_none rfl
  | writeMem a data size => exact b.hart.bus.sends_write a data size
  | readMem a size => exact Bus.sends_none rfl

/-- A history sends what its entries send, in their order. -/
theorem sent_serveAll (b : Board) (rs : List Request) :
    (b.serveAll rs).1.hart.bus.uart.sent.toList =
      b.hart.bus.uart.sent.toList ++ ((b.history rs).filterMap sentWord?).map (·.byte 0) := by
  induction rs generalizing b with
  | nil => exact (List.append_nil _).symm
  | cons r rs ih =>
    have hfirst := (b.sends_serve r).sent
    rw [uart_busOf] at hfirst
    show ((b.serve r).1.serveAll rs).1.hart.bus.uart.sent.toList = _
    rw [ih, hfirst, history, List.filterMap_cons, List.append_assoc]
    cases sentWord? (b, r) <;> rfl

/-- **The serial line is the log of the stores to its data register.** After any history of
    a new board the code points of the text are, in order, the low bytes of the words that
    cycles and the host have stored from the address of the data register on. On any board a
    request sends what it stores there, without a change to RAM or timer, and otherwise
    nothing. -/
theorem text_eq_stores (rom : Rom) (config : Config) (rs : List Request) :
    let start := Board.new rom config
    let past := start.history rs
    (start.serveAll rs).1.hart.bus.uart.text.toList.map Char.toNat =
      (past.filterMap sentWord?).map (·.toNat % 256) ∧
    ∀ (b : Board) (r : Request),
      (busOf (b, r)).Sends (sentWord? (b, r)) (b.serve r).1.hart.bus := by
  intro start past
  refine ⟨?_, sends_serve⟩
  have hsent := start.sent_serveAll rs
  have hidle : start.hart.bus.uart.sent.toList = [] := rfl
  rw [hidle, List.nil_append] at hsent
  rw [Uart.map_toNat_text, hsent, List.map_map]
  exact List.map_congr_left fun w _ => w.toNat_byte_zero

/-- A program that stores half a word to the data register, one byte to the status register
    and a word that starts below the window, and a host that stores a word: of the four
    stores the first and the last send, one character each, and the first leaves RAM and
    timer alone. -/
theorem text_eq_stores_of_hi :
    let rom := Rom.ofWords [0x100002B7, 0x14800313, 0x00629023, 0x00628223, 0xFE62AFA3]
    let rs : List Request := List.replicate 5 .step ++ [.writeMem Bus.uartData 0x4969 .word]
    let start := Board.new rom .standard
    let storing := (start.serveAll [.step, .step]).1
    (start.history rs).filterMap sentWord? = [0x0148, 0x4969] ∧
    (start.serveAll rs).1.hart.bus.uart.text.toList.map Char.toNat = ['H', 'i'].map Char.toNat ∧
    storing.hart.tick.fetch = 0x00629023 ∧
    storing.step.1.hart.bus.ram = storing.hart.bus.ram ∧
    storing.step.1.hart.bus.timer = storing.hart.bus.tick.timer := by
  intro rom rs start storing
  obtain ⟨htext, hserve⟩ := text_eq_stores rom .standard rs
  have hwords : (start.history rs).filterMap sentWord? = [0x0148, 0x4969] := by decide +kernel
  have hfetch : storing.hart.tick.fetch = 0x00629023 := by decide +kernel
  have hsends : (sentWord? (storing, .step)).isSome = true := by decide +kernel
  have hstore := hserve storing .step
  refine ⟨hwords, ?_, hfetch, hstore.ram hsends, hstore.timer hsends⟩
  rw [htext, hwords]
  rfl

end Board

end Rv32Sim
