/-
  Rv32Sim.Proofs.Board.Requests

  A board as its host sees it: requests go in, answers come back. A history is the list
  of the requests of a host, each with the board that serves it. Runs of many cycles lead
  nowhere that single cycles do not lead (`Leads.induction`).
-/
import Rv32Sim.Proofs.Board.Runs

namespace Rv32Sim

namespace Board

/-! ## Requests and answers -/

/-- What a host asks of a board, one cycle at most. -/
inductive Request where
  | step
  | setInterruptLine (i : Interrupt) (level : Bool)
  | writeCsr (a : CsrAddress) (w : Word)
  | writeMem (a data : Word) (size : AccessSize)
  | readMem (a : Word) (size : AccessSize)
  deriving DecidableEq, Repr

/-- What a host gets back. -/
inductive Answer where
  | done
  | record (r : StepRecord)
  /-- Whether there is a register at the address that was written to. -/
  | found (present : Bool)
  | value (w : Word)
  deriving DecidableEq, Repr

/-- Serve a request. -/
def serve (b : Board) : Request → Board × Answer
  | .step => (b.step.1, .record b.step.2)
  | .setInterruptLine i level => (b.setInterruptLine i level, .done)
  | .writeCsr a w => (b.writeCsr a w, .found (Csr.ofAddress? a).isSome)
  | .writeMem a data size => (b.writeMem a data size, .done)
  | .readMem a size => (b, .value (b.readMem a size))

/-- Serve requests one after the other. -/
def serveAll (b : Board) : List Request → Board × List Answer
  | [] => (b, [])
  | r :: rs =>
    let (later, answer) := b.serve r
    let (last, answers) := later.serveAll rs
    (last, answer :: answers)

/-- The requests of a host, each with the board that serves it. -/
def history (b : Board) : List Request → List (Board × Request)
  | [] => []
  | r :: rs => (b, r) :: (b.serve r).1.history rs

theorem serveAll_append (b : Board) (rs rs' : List Request) :
    (b.serveAll (rs ++ rs')).1 = ((b.serveAll rs).1.serveAll rs').1 := by
  induction rs generalizing b with
  | nil => rfl
  | cons r rs ih => exact ih (b.serve r).1

theorem history_append (b : Board) (rs rs' : List Request) :
    b.history (rs ++ rs') = b.history rs ++ (b.serveAll rs).1.history rs' := by
  induction rs generalizing b with
  | nil => rfl
  | cons r rs ih => exact congrArg ((b, r) :: ·) (ih (b.serve r).1)

/-- Requests do nothing that operations cannot do. -/
theorem exists_performAll_eq_serve (b : Board) (r : Request) :
    ∃ ops, (b.serve r).1 = b.performAll ops := by
  cases r with
  | step => exact ⟨[.step], rfl⟩
  | setInterruptLine i level => exact ⟨[.setInterruptLine i level], rfl⟩
  | writeCsr a w => exact ⟨[.writeCsr a w], rfl⟩
  | writeMem a data size => exact ⟨[.writeMem a data size], rfl⟩
  | readMem a size => exact ⟨[], rfl⟩

theorem Reachable.serve {b : Board} (hb : b.Reachable) (r : Request) :
    (b.serve r).1.Reachable := by
  obtain ⟨ops, hops⟩ := b.exists_performAll_eq_serve r
  rw [hops]
  exact hb.performAll ops

theorem Reachable.serveAll {b : Board} (hb : b.Reachable) (rs : List Request) :
    (b.serveAll rs).1.Reachable := by
  induction rs generalizing b with
  | nil => exact hb
  | cons r rs ih => exact ih (hb.serve r)

theorem reachable_new (rom : Rom) (config : Config) : (Board.new rom config).Reachable :=
  ⟨rom, config, [], rfl⟩

/-! ## Runs among requests -/

/-- A host gets from the board `b` to another by requests and runs. -/
inductive Leads (b : Board) : Board → Prop where
  | start : Leads b b
  | serve {later : Board} (r : Request) : Leads b later → Leads b (later.serve r).1
  | run {later : Board} : Leads b later → Leads b later.run
  | runUntil {later : Board} (stop : Board → Bool) :
      Leads b later → Leads b (later.runUntil stop)

/-- What every request keeps is kept by runs as well. -/
theorem Leads.induction {motive : Board → Prop}
    (hserve : ∀ b r, motive b → motive (b.serve r).1) {b last : Board} (hleads : b.Leads last)
    (hb : motive b) : motive last := by
  -- a run ends at one of the boards that single cycles lead to
  have hafter (b : Board) (h : motive b) (n : Nat) : motive (b.after n) := by
    induction n with
    | zero => exact h
    | succ n ih => exact hserve (b.after n) .step ih
  have hrun (stop : Board → Bool) (b : Board) (h : motive b) : motive (b.runUntil stop) := by
    obtain ⟨k, -, hk⟩ := exists_isLeast_runUntil stop b
    rw [hk]
    exact hafter b h k
  induction hleads with
  | start => exact hb
  | serve r _ ih => exact hserve _ r ih
  | run _ ih => exact hrun _ _ ih
  | runUntil stop _ ih => exact hrun stop _ ih

end Board

end Rv32Sim
