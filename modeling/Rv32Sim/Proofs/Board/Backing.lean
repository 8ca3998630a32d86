/-
  Rv32Sim.Proofs.Board.Backing

  A host cannot tell where a byte is kept. Boards that differ in nothing but alike address
  spaces answer every request alike and stay alike (`Alike.serve`), and so they do for as
  long as requests come (`Alike.serveAll`). A program image that the host writes word by
  word into a board without one makes such a pair with the board that was built with it
  (`alike_loadWords`).
-/
import Rv32Sim.Proofs.Hart.Backing
import Rv32Sim.Proofs.Board.Requests

namespace Rv32Sim

theorem Hart.Alike.tick {h h' : Hart} (halike : h.Alike h') : h.tick.Alike h'.tick :=
  { halike with bus := halike.bus.tick }

namespace Board

/-! ## Boards that are alike -/

/-- The same board, with address spaces that are alike. -/
structure Alike (b b' : Board) : Prop where
  hart : b.hart.Alike b'.hart
  config : b'.config = b.config
  cycles : b'.cycles = b.cycles
  instret : b'.instret = b.instret
  status : b'.status = b.status

namespace Alike

variable {b b' : Board}

theorem delivered {h h' : Hart} (halike : h.Alike h') (retired : Bool) :
    (Board.delivered h retired).Alike (Board.delivered h' retired) := by
  unfold Board.delivered
  cases retired with
  | true => exact halike.syncTimerLine.takeInterrupt
  | false => exact halike.syncTimerLine

theorem step (halike : b.Alike b') :
    b.step.1.Alike b'.step.1 ∧ b'.step.2 = b.step.2 := by
  obtain ⟨hhart, hrecord⟩ := halike.hart.tick.step
  have hretired : b'.executed.2.retired = b.executed.2.retired :=
    congrArg StepRecord.retired hrecord
  refine ⟨⟨?_, halike.config, ?_, ?_, ?_⟩, hrecord⟩
  · -- both instructions retire or neither does, so both get an interrupt or neither
    show (Board.delivered _ _).Alike (Board.delivered _ b'.executed.2.retired)
    rw [hretired]
    exact delivered hhart _
  · rw [step_cycles, step_cycles, halike.cycles]
  · exact congrArg (· + 1) halike.instret
  · rw [step_status, step_status, halike.config, halike.cycles, halike.status]

theorem serve (halike : b.Alike b') (r : Request) :
    (b.serve r).1.Alike (b'.serve r).1 ∧ (b'.serve r).2 = (b.serve r).2 := by
  have hhart := halike.hart
  cases r with
  | step =>
    obtain ⟨hlater, hrecord⟩ := halike.step
    exact ⟨hlater, congrArg Answer.record hrecord⟩
  | setInterruptLine i level =>
    refine ⟨?_, rfl⟩
    show (b.setInterruptLine i level).Alike (b'.setInterruptLine i level)
    unfold setInterruptLine
    split
    · exact halike
    · refine { halike with hart := { hhart with pending := ?_ } }
      rw [Hart.setPending, Hart.setPending, hhart.pending]
  | writeCsr a w =>
    refine ⟨{ halike with hart := { hhart with csrs := ?_ } }, rfl⟩
    exact congrArg (·.write a w) hhart.csrs
  | writeMem a data size =>
    exact ⟨{ halike with hart := { hhart with bus := hhart.bus.write a data size } }, rfl⟩
  | readMem a size => exact ⟨halike, congrArg Answer.value (hhart.bus.read a size)⟩

/-- Boards that are alike answer alike, and stay alike, for as long as requests come. -/
theorem serveAll (halike : b.Alike b') (rs : List Request) :
    (b'.serveAll rs).2 = (b.serveAll rs).2 ∧
      (b.serveAll rs).1.Alike (b'.serveAll rs).1 := by
  induction rs generalizing b b' with
  | nil => exact ⟨rfl, halike⟩
  | cons r rs ih =>
    obtain ⟨hlater, hanswer⟩ := halike.serve r
    obtain ⟨hanswers, hlast⟩ := ih hlater
    refine ⟨?_, hlast⟩
    show (b'.serve r).2 :: ((b'.serve r).1.serveAll rs).2 = _
    rw [hanswer, hanswers]
    rfl

end Alike

/-! ## An image that the host writes -/

/-- The requests that write words into memory. -/
def loadWords (entries : List (Word × Word)) : List Request :=
  entries.map fun (a, w) => .writeMem a w .word

theorem serveAll_loadWords (b : Board) (entries : List (Word × Word)) :
    (b.serveAll (loadWords entries)).1 =
      b.onHart fun h => { h with bus := h.bus.performAll (Bus.wordWrites entries) } := by
  induction entries generalizing b with
  | nil => rfl
  | cons e entries ih => exact ih _

/-- A board with an image is like a board without one to which the host writes the words
    of the image, in any order. -/
theorem alike_loadWords {rom : Rom} (config : Config) {entries : List (Word × Word)}
    (hentries : entries.Perm rom.toList)
    (hdevice : ∀ a, Bus.TakesWrite a → rom.word? a = none) :
    (Board.new rom config).Alike
      ((Board.new .empty config).serveAll (loadWords entries)).1 := by
  have hword (e : Word × Word) (he : e ∈ entries) :
      e.1.offset = 0 ∧ rom.word? e.1 = some e.2 :=
    Rom.mem_toList_iff.1 (hentries.mem_iff.1 he)
  have hnot (e : Word × Word) (he : e ∈ entries) : ¬Bus.TakesWrite e.1 := by
    intro htakes
    have hnone := hdevice e.1 htakes
    rw [(hword e he).2] at hnone
    cases hnone
  -- written into an empty address space, the words are like an image put together from them
  have hbus := Bus.alike_performAll_writes (Bus.Alike.refl (.ofRom .empty))
    (fun e he => (hword e he).1) hnot
  rw [show Rom.empty.insertMany entries = rom from Rom.ofList_of_perm_toList hentries] at hbus
  rw [serveAll_loadWords]
  exact ⟨⟨rfl, rfl, rfl, hbus, rfl, rfl⟩, rfl, rfl, rfl, rfl⟩

/-- **Where a byte is kept is not observable.** Boards that are alike answer any sequence
    of requests alike and stay alike; and a program image without a word at a register that
    takes writes may as well be written by the host, word by word and in any order. -/
theorem backing_unobservable :
    (∀ b b' : Board, b.Alike b' → ∀ rs,
      (b'.serveAll rs).2 = (b.serveAll rs).2 ∧
      (b.serveAll rs).1.Alike (b'.serveAll rs).1) ∧
    (∀ (rom : Rom) (config : Config) (entries : List (Word × Word)),
      entries.Perm rom.toList → (∀ a, Bus.TakesWrite a → rom.word? a = none) →
      let b := Board.new rom config
      let b' := ((Board.new .empty config).serveAll (loadWords entries)).1
      ∀ rs, (b'.serveAll rs).2 = (b.serveAll rs).2 ∧
        (b.serveAll rs).1.Alike (b'.serveAll rs).1) := by
  refine ⟨fun b b' halike rs => halike.serveAll rs, ?_⟩
  intro rom config entries hentries hdevice b b' rs
  exact (alike_loadWords config hentries hdevice).serveAll rs

/-- A program that overwrites its third word, once as the image and once written from its
    end; the two boards hold their bytes in different places. -/
theorem backing_unobservable_of_patch :
    let rom := Rom.ofWords [0x07300093, 0x00102423, nopWord]
    let b := Board.new rom .standard
    let b' := ((Board.new .empty .standard).serveAll (loadWords rom.toList.reverse)).1
    let rs : List Request := [.step, .step, .readMem 8 .word, .step]
    b'.hart.bus ≠ b.hart.bus ∧
    (b.serveAll rs).2[2]? = some (.value ecallWord) ∧
    (b'.serveAll rs).2 = (b.serveAll rs).2 := by
  intro rom b b' rs
  have hdevice : ∀ a, Bus.TakesWrite a → rom.word? a = none := by
    rintro a (rfl | rfl | rfl) <;> decide +kernel
  have halike := backing_unobservable.2 rom .standard rom.toList.reverse
    (List.reverse_perm _) hdevice rs
  exact ⟨by decide +kernel, by decide +kernel, halike.1⟩

end Board

end Rv32Sim
