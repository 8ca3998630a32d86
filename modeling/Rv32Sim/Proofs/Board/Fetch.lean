/-
  Rv32Sim.Proofs.Board.Fetch

  Fetching from a memory with a past. Program and host store through the same address space,
  so the history of a board is a history of its address space (`bus_performAll`), and what
  the next instruction is follows from the stores of both: a no-op where nothing was ever put,
  and otherwise the word that a load would bring, byte by byte as it was stored last
  (`fetch_agrees_with_memory`).
-/
import Rv32Sim.Proofs.Board.Comparator

namespace Rv32Sim

/-! ## The writes of a history -/

/-- The write to the address space that a word asks for, if it is a store. -/
def Hart.storeOf? (h : Hart) (w : Word) : Option Bus.Operation :=
  match w.access? with
  | some (.store size) => some (.write (h.storeAddress w) (h.regs.get w.rs2) size)
  | _ => none

theorem Hart.bus_dispatch (h : Hart) (w : Word) :
    (h.dispatch w).1.bus = h.bus.performAll (h.storeOf? w).toList := by
  rw [dispatch_bus, storeOf?]
  cases w.access? with
  | none => rfl
  | some action => cases action <;> rfl

namespace Board

/-- What an operation does to the address space: a cycle ticks the timer before its
    instruction. -/
def busOperations (b : Board) : Operation → List Bus.Operation
  | .step => .tick :: (b.hart.tick.storeOf? b.step.2.raw).toList
  | .stepHart => (b.hart.storeOf? b.hart.step.2.raw).toList
  | .writeMem a data size => [.write a data size]
  | .tick => [.tick]
  | _ => []

/-- What a list of operations does to the address space, in the order of the list. -/
def busHistory (b : Board) : List Operation → List Bus.Operation
  | [] => []
  | op :: ops => b.busOperations op ++ (b.perform op).busHistory ops

theorem bus_perform (b : Board) (op : Operation) :
    (b.perform op).hart.bus = b.hart.bus.performAll (b.busOperations op) := by
  cases op with
  | step =>
    show b.step.1.hart.bus = _
    rw [step_bus]
    exact b.hart.tick.bus_dispatch b.step.2.raw
  | setInterruptLine i level =>
    show (b.setInterruptLine i level).hart.bus = _
    unfold setInterruptLine
    split <;> rfl
  | stepHart => exact b.hart.bus_dispatch b.hart.step.2.raw
  | takeInterrupt =>
    show b.hart.takeInterrupt.1.bus = _
    unfold Hart.takeInterrupt
    split <;> rfl
  | _ => rfl

theorem bus_performAll (b : Board) (ops : List Operation) :
    (b.performAll ops).hart.bus = b.hart.bus.performAll (b.busHistory ops) := by
  induction ops generalizing b with
  | nil => rfl
  | cons op ops ih =>
    show ((b.perform op).performAll ops).hart.bus = _
    rw [ih, bus_perform, busHistory, Bus.performAll, Bus.performAll, Bus.performAll,
      List.foldl_append]

end Board

/-! ## What is fetched -/

namespace Hart

open Bus (AnswersRead content?)

variable {h : Hart} {rom : Rom} {stores : List Bus.Operation}

theorem fetch_of_content?_eq_none (hbus : h.bus = (Bus.ofRom rom).performAll stores)
    (hnone : ∀ i < 4, content? rom stores (h.pc + BitVec.ofNat 32 i) = none) :
    h.fetch = nopWord := by
  apply fetch_of_blank
  intro i hi
  rw [hbus, Bus.hasContent_eq_isSome_content?, hnone i hi]
  rfl

theorem fetch_of_isSome_content? (hbus : h.bus = (Bus.ofRom rom).performAll stores)
    (hsome : ∃ i < 4, (content? rom stores (h.pc + BitVec.ofNat 32 i)).isSome) :
    h.fetch = h.bus.read h.pc .word := by
  apply fetch_of_content
  obtain ⟨i, hi, hcontent⟩ := hsome
  refine ⟨i, hi, ?_⟩
  rw [hbus, Bus.hasContent_eq_isSome_content?, hcontent]

/-- What is fetched is put together from what every one of its bytes is. -/
theorem byte_fetch (hbus : h.bus = (Bus.ofRom rom).performAll stores)
    (hdevice : ¬AnswersRead h.pc)
    (hsome : ∃ i < 4, (content? rom stores (h.pc + BitVec.ofNat 32 i)).isSome) :
    ∀ i < 4, h.fetch.byte i = (content? rom stores (h.pc + BitVec.ofNat 32 i)).getD 0 := by
  intro i hi
  rw [fetch_of_isSome_content? hbus hsome, Bus.byte_read _ hdevice hi, hbus,
    Bus.byteAt_eq_getD_content?]

/-- A word that was stored at the pc is fetched, unless a byte of it was stored over. -/
theorem fetch_of_write {before after : List Bus.Operation} {w : Word}
    (hbus : h.bus = (Bus.ofRom rom).performAll (before ++ .write h.pc w .word :: after))
    (hdevice : ¬AnswersRead h.pc)
    (hafter : ∀ i < 4, Bus.lastByte? after (h.pc + BitVec.ofNat 32 i) = none) : h.fetch = w := by
  have hstored (i : Nat) (hi : i < 4) :
      content? rom (before ++ .write h.pc w .word :: after) (h.pc + BitVec.ofNat 32 i) =
        some (w.byte i) :=
    Bus.content?_of_write rom before (Bus.not_takesWrite hdevice) w hi (hafter i hi)
  have hfirst : ∃ i < 4, (content? rom (before ++ .write h.pc w .word :: after)
      (h.pc + BitVec.ofNat 32 i)).isSome :=
    ⟨0, by decide, by rw [hstored 0 (by decide)]; rfl⟩
  apply Word.ext_byte
  intro i hi
  rw [byte_fetch hbus hdevice hfirst i hi, hstored i hi, Option.getD_some]

end Hart

namespace Board

/-- **Fetching agrees with memory.** After any history of stores by the program and the host,
    wherever the pc stands but on a register of a device: the next instruction is a no-op if
    none of the four bytes there lies in the image or was ever stored to memory; otherwise it
    is what a word load brings, each byte the last one stored, else that of the image, else
    zero; so a word that is stored there is executed there, as long as nothing is stored over
    it. What has content keeps it. And a hart whose next `4 * n` bytes have none moves on by
    as much in `n` instructions, modulo `2 ^ 32`, and changes nothing else. -/
theorem fetch_agrees_with_memory (rom : Rom) (config : Config) (ops : List Operation) :
    let start := Board.new rom config
    let b := start.performAll ops
    let stores := start.busHistory ops
    let content? := Bus.content? rom stores
    (∀ pc : Word, ¬Bus.AnswersRead pc →
      let raw := { b.hart with pc }.step.2.raw
      ((∀ i < 4, content? (pc + BitVec.ofNat 32 i) = none) → raw = nopWord) ∧
      ((∃ i < 4, (content? (pc + BitVec.ofNat 32 i)).isSome) →
        raw = b.hart.bus.read pc .word ∧
        ∀ i < 4, raw.byte i = (content? (pc + BitVec.ofNat 32 i)).getD 0) ∧
      ∀ before after w, stores = before ++ .write pc w .word :: after →
        (∀ i < 4, Bus.lastByte? after (pc + BitVec.ofNat 32 i) = none) → raw = w) ∧
    (∀ x, b.hart.bus.hasContent x = (content? x).isSome) ∧
    (∀ later x, b.hart.bus.hasContent x = true →
      (b.performAll later).hart.bus.hasContent x = true) ∧
    ∀ (h : Hart) (n : Nat), h.regs.get Reg.zero = 0 →
      (∀ k < 4 * n, h.bus.hasContent (h.pc + BitVec.ofNat 32 k) = false) →
      h.steps n = { h with pc := h.pc + BitVec.ofNat 32 (4 * n) } := by
  intro start b stores content?
  have hbus : b.hart.bus = (Bus.ofRom rom).performAll stores := start.bus_performAll ops
  refine ⟨?_, ?_, ?_, ?_⟩
  · intro pc hdevice raw
    let h := { b.hart with pc }
    refine ⟨Hart.fetch_of_content?_eq_none (h := h) hbus, fun hsome => ⟨?_, ?_⟩, ?_⟩
    · exact Hart.fetch_of_isSome_content? (h := h) hbus hsome
    · exact Hart.byte_fetch (h := h) hbus hdevice hsome
    · intro before after w hstores hafter
      rw [hstores] at hbus
      exact Hart.fetch_of_write (h := h) hbus hdevice hafter
  · intro x
    rw [hbus]
    exact Bus.hasContent_eq_isSome_content? rom stores x
  · intro later x hx
    rw [bus_performAll, Bus.hasContent_performAll, hx, Bool.or_true]
  · intro h n hzero hblank
    exact Hart.steps_of_blank hzero hblank

/-- A program of two words that stores the word of ECALL behind itself, and a host that stores
    the last byte of the address space: the stored word is executed, a word across the end of
    the address space is put together from a byte that is missing, one that was stored and two
    of the image, and four no-ops lead through the registers of the serial line. -/
theorem fetch_agrees_with_memory_of_patch :
    let rom := Rom.ofWords [0x07300093, 0x00102423]
    let ops : List Operation := [.step, .step, .writeMem 0xFFFFFFFF 0x5A .byte]
    let b := (Board.new rom .standard).performAll ops
    let across := { b.hart with pc := 0xFFFFFFFE }.step.2.raw
    let below := { b.hart with pc := 0x0FFFFFF8 }
    ¬Bus.AnswersRead 8 ∧ ¬Bus.AnswersRead 0xFFFFFFFE ∧
    { b.hart with pc := 8 }.step.2.raw = ecallWord ∧
    across.byte 0 = 0 ∧ across.byte 1 = 0x5A ∧ across.byte 2 = 0x93 ∧ across.byte 3 = 0x00 ∧
    below.step.2.raw = nopWord ∧
    below.regs.get Reg.zero = 0 ∧ below.steps 4 = { below with pc := 0x10000008 } := by
  intro rom ops b across below
  have hpatch : ¬Bus.AnswersRead 8 := by decide
  have hacross : ¬Bus.AnswersRead 0xFFFFFFFE := by decide
  have hbelow : ¬Bus.AnswersRead 0x0FFFFFF8 := by decide
  have hzero : below.regs.get Reg.zero = 0 := by decide +kernel
  have hstores : (Board.new rom .standard).busHistory ops =
      [.tick, .tick] ++ .write 8 ecallWord .word :: [.write 0xFFFFFFFF 0x5A .byte] := by
    decide +kernel
  have hblank : ∀ k < 16, below.bus.hasContent (below.pc + BitVec.ofNat 32 k) = false := by
    decide +kernel
  obtain ⟨hfetch, hcontent, -, hsteps⟩ := fetch_agrees_with_memory rom .standard ops
  obtain ⟨-, -, hstored⟩ := hfetch 8 hpatch
  obtain ⟨-, hload, -⟩ := hfetch 0xFFFFFFFE hacross
  obtain ⟨hnop, -⟩ := hfetch 0x0FFFFFF8 hbelow
  obtain ⟨-, hbytes⟩ := hload ⟨1, by decide, by decide +kernel⟩
  refine ⟨hpatch, hacross, ?_, ?_, ?_, ?_, ?_, ?_, hzero, hsteps below 4 hzero hblank⟩
  · exact hstored _ _ ecallWord hstores (by decide)
  · exact (hbytes 0 (by decide)).trans (by decide +kernel)
  · exact (hbytes 1 (by decide)).trans (by decide +kernel)
  · exact (hbytes 2 (by decide)).trans (by decide +kernel)
  · exact (hbytes 3 (by decide)).trans (by decide +kernel)
  · exact hnop (by decide +kernel)

end Board

end Rv32Sim
