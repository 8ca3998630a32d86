/-
  Rv32Sim.Proofs.Board.HostLines

  The software and the external line over any history of requests. A cycle takes such a
  line down exactly when it takes its interrupt, and never brings it up; so deliveries,
  lowerings by the host and a line still up account for every raising by the host
  (`countP_delivers_add`), and a line that is up waits for the first cycle that offers
  it delivery (`lineUp_serveAll`).
-/
import Rv32Sim.Proofs.Board.Delivery
import Rv32Sim.Proofs.Board.Requests

namespace Rv32Sim

namespace Board

/-! ## One cycle -/

/-- The level of a line. -/
def lineUp (b : Board) (i : Interrupt) : Bool := b.hart.pending.getLsbD i.code

/-- For the lines that a host drives, the level that decides is the one before the cycle. -/
theorem isUp_iff_lineUp (b : Board) {i : Interrupt} (hi : i ≠ .timer) :
    b.IsUp i ↔ b.lineUp i = true := by
  cases i with
  | timer => exact absurd rfl hi
  | software => exact Iff.rfl
  | external => exact Iff.rfl

theorem lineUp_of_taken {b : Board} (hm : b.hart.csrs.Mirrored) {i : Interrupt}
    (hi : i ≠ .timer) (htaken : b.taken? = some i) : b.lineUp i = true := by
  have hdue : b.IsDue i := ((taken?_eq_some_iff hm i).1 htaken).1
  exact (isUp_iff_lineUp b hi).1 hdue.isUp

theorem lineUp_step_of_taken {b : Board} (hm : b.hart.csrs.Mirrored) {i : Interrupt}
    (hi : i ≠ .timer) (htaken : b.taken? = some i) : b.step.1.lineUp i = false := by
  have hdown : ¬b.step.1.lineUp i = true := fun hup => ((step_pending hm hi).1 hup).2 htaken
  exact Bool.eq_false_iff.2 hdown

/-- A cycle that does not take the interrupt of a line leaves the line alone. -/
theorem lineUp_step_of_not_taken {b : Board} (hm : b.hart.csrs.Mirrored) {i : Interrupt}
    (hi : i ≠ .timer) (htaken : b.taken? ≠ some i) : b.step.1.lineUp i = b.lineUp i := by
  have hiff : b.step.1.lineUp i = true ↔ b.lineUp i = true :=
    ⟨fun hup => ((step_pending hm hi).1 hup).1, fun hup => (step_pending hm hi).2 ⟨hup, htaken⟩⟩
  exact Bool.eq_iff_iff.2 hiff

/-- The next cycle of `b` would deliver the interrupt `i` if its line were up: its
    instruction retires and leaves the line enabled, and no interrupt before it is due. -/
structure Offers (b : Board) (i : Interrupt) : Prop where
  retired : b.executed.2.exception = none
  enable : b.executed.1.csrs.mstatus.getLsbD 3 = true
  enabled : b.executed.1.csrs.mie.getLsbD i.code = true
  first : ∀ j : Interrupt, j.rank < i.rank → ¬b.IsDue j

/-- A line that is up is delivered by the cycles that offer it delivery and by no others. -/
theorem taken?_eq_some_iff_offers {b : Board} (hm : b.hart.csrs.Mirrored) {i : Interrupt}
    (hi : i ≠ .timer) (hup : b.lineUp i = true) : b.taken? = some i ↔ b.Offers i := by
  rw [taken?_eq_some_iff hm]
  constructor
  · rintro ⟨hdue, hfirst⟩
    exact ⟨hdue.retired, hdue.enable, hdue.enabled, hfirst⟩
  · intro hoffers
    have hisUp : b.IsUp i := (isUp_iff_lineUp b hi).2 hup
    exact ⟨⟨hoffers.retired, hoffers.enable, hoffers.enabled, hisUp⟩, hoffers.first⟩

/-- What the next cycle of `b` does to the line `i`: it takes the line down exactly by
    taking its interrupt, and whatever else happens leaves it alone. -/
structure MovesByDelivery (b : Board) (i : Interrupt) : Prop where
  neverRaised : b.lineUp i = false → b.step.1.lineUp i = false
  lowered_iff : b.lineUp i = true ∧ b.step.1.lineUp i = false ↔ b.taken? = some i
  cause : b.taken? = some i →
    b.step.1.hart.csrs.mcause = BitVec.ofNat 32 (0x80000000 + i.code)
  keptByException : b.executed.2.exception ≠ none → b.step.1.lineUp i = b.lineUp i
  keptByOther : ∀ j, j ≠ i → b.taken? = some j → b.step.1.lineUp i = b.lineUp i
  keptWhileDisabled :
    b.executed.1.csrs.mstatus.getLsbD 3 = false ∨
        b.executed.1.csrs.mie.getLsbD i.code = false →
      b.step.1.lineUp i = b.lineUp i
  keptByInstruction : b.executed.1.pending = b.hart.pending
  keptByMip : ∀ w, (b.onHart (·.withMip w)).step.1.lineUp i = b.step.1.lineUp i

theorem lineUp_step_of_mip (b : Board) (i : Interrupt) (w : Word) :
    (b.onHart (·.withMip w)).step.1.lineUp i = b.step.1.lineUp i := by
  obtain ⟨rd, regs, w', hhart, -⟩ := (b.step_of_mip w).2.2
  rw [lineUp, hhart]
  rfl

theorem movesByDelivery {b : Board} (hm : b.hart.csrs.Mirrored) {i : Interrupt}
    (hi : i ≠ .timer) : b.MovesByDelivery i where
  neverRaised hdown := by
    by_cases htaken : b.taken? = some i
    · exact lineUp_step_of_taken hm hi htaken
    · rw [lineUp_step_of_not_taken hm hi htaken, hdown]
  lowered_iff := by
    constructor
    · rintro ⟨hup, hdown⟩
      by_contra htaken
      rw [lineUp_step_of_not_taken hm hi htaken, hup] at hdown
      cases hdown
    · intro htaken
      exact ⟨lineUp_of_taken hm hi htaken, lineUp_step_of_taken hm hi htaken⟩
  cause htaken := by
    rw [step_hart_of_taken hm htaken]
    rfl
  keptByException hexc := by
    have hnone : b.taken? = none := taken?_of_exception hexc
    apply lineUp_step_of_not_taken hm hi
    rw [hnone]
    exact nofun
  keptByOther j hj htaken := by
    apply lineUp_step_of_not_taken hm hi
    rw [htaken]
    exact fun heq => hj (Option.some.inj heq)
  keptWhileDisabled hdisabled := by
    apply lineUp_step_of_not_taken hm hi
    intro htaken
    have hdue : b.IsDue i := ((taken?_eq_some_iff hm i).1 htaken).1
    rcases hdisabled with hglobal | hline
    · rw [hdue.enable] at hglobal
      cases hglobal
    · rw [hdue.enabled] at hline
      cases hline
  keptByInstruction := b.executed_pending
  keptByMip := b.lineUp_step_of_mip i

/-! ## What a host does to a line -/

/-- The level of a line after the host has driven a line. -/
theorem lineUp_setInterruptLine (b : Board) (i j : Interrupt) (level : Bool) :
    (b.setInterruptLine j level).lineUp i =
      if i = j ∧ j ≠ .timer then level else b.lineUp i := by
  unfold setInterruptLine
  by_cases htimer : j = .timer
  · rw [if_pos htimer, if_neg (fun h => h.2 htimer)]
  · rw [if_neg htimer]
    show (b.hart.pending.assignBit j.code level).getLsbD i.code = _
    rw [Word.getLsbD_assignBit _ j.code_lt]
    by_cases hij : i = j
    · rw [if_pos (Interrupt.code_inj.2 hij), if_pos ⟨hij, htimer⟩]
    · rw [if_neg (fun h => hij (Interrupt.code_inj.1 h)), if_neg (fun h => hij h.1)]
      rfl

/-- A host moves a line only by driving that line to the level it then has. -/
theorem eq_setInterruptLine_of_moved {b : Board} {r : Request} {i : Interrupt} {level : Bool}
    (hr : r ≠ .step) (hbefore : b.lineUp i ≠ level) (hafter : (b.serve r).1.lineUp i = level) :
    r = .setInterruptLine i level := by
  cases r with
  | step => exact absurd rfl hr
  | setInterruptLine j driven =>
    have hlevel : (b.setInterruptLine j driven).lineUp i = level := hafter
    rw [lineUp_setInterruptLine] at hlevel
    split at hlevel
    next h => rw [h.1, hlevel]
    next => exact absurd hlevel hbefore
  | writeCsr a w => exact absurd hafter hbefore
  | writeMem a data size => exact absurd hafter hbefore
  | readMem a size => exact absurd hafter hbefore

/-! ## Histories -/

/-- The board of this entry delivers the interrupt `i`. -/
def Delivers (i : Interrupt) (v : Board × Request) : Prop :=
  v.2 = .step ∧ v.1.taken? = some i

/-- The host takes the line `i` from low to high with this entry. -/
def HostRaises (i : Interrupt) (v : Board × Request) : Prop :=
  v.2 ≠ .step ∧ v.1.lineUp i = false ∧ (v.1.serve v.2).1.lineUp i = true

/-- The host takes the line `i` from high to low with this entry. -/
def HostLowers (i : Interrupt) (v : Board × Request) : Prop :=
  v.2 ≠ .step ∧ v.1.lineUp i = true ∧ (v.1.serve v.2).1.lineUp i = false

instance (i : Interrupt) (v : Board × Request) : Decidable (Delivers i v) :=
  inferInstanceAs (Decidable (_ ∧ _))

instance (i : Interrupt) (v : Board × Request) : Decidable (HostRaises i v) :=
  inferInstanceAs (Decidable (_ ∧ _ ∧ _))

instance (i : Interrupt) (v : Board × Request) : Decidable (HostLowers i v) :=
  inferInstanceAs (Decidable (_ ∧ _ ∧ _))

/-- The account of a line over one request: what went out and what is there make up what
    came in and what was there. -/
theorem delivers_add {b : Board} (hb : b.Reachable) {i : Interrupt} (hi : i ≠ .timer)
    (r : Request) :
    (if Delivers i (b, r) then 1 else 0) + (if HostLowers i (b, r) then 1 else 0) +
        ((b.serve r).1.lineUp i).toNat =
      (if HostRaises i (b, r) then 1 else 0) + (b.lineUp i).toNat := by
  by_cases hr : r = .step
  · subst hr
    have hlowers : ¬HostLowers i (b, .step) := fun h => h.1 rfl
    have hraises : ¬HostRaises i (b, .step) := fun h => h.1 rfl
    rw [if_neg hlowers, if_neg hraises]
    show _ + 0 + (b.step.1.lineUp i).toNat = _
    by_cases htaken : b.taken? = some i
    · rw [if_pos ⟨rfl, htaken⟩, lineUp_step_of_taken hb.mirrored hi htaken,
        lineUp_of_taken hb.mirrored hi htaken]
      rfl
    · rw [if_neg (fun h => htaken h.2), lineUp_step_of_not_taken hb.mirrored hi htaken]
  · -- with the host at work only the levels before and after count
    have hdelivers : ¬Delivers i (b, r) := fun h => hr h.1
    rw [if_neg hdelivers]
    cases hbefore : b.lineUp i <;> cases hafter : (b.serve r).1.lineUp i <;>
      simp [HostLowers, HostRaises, hr, hbefore, hafter]

/-- The account of a line over a history. -/
theorem countP_delivers_add {b : Board} (hb : b.Reachable) {i : Interrupt} (hi : i ≠ .timer)
    (rs : List Request) :
    (b.history rs).countP (Delivers i ·) + (b.history rs).countP (HostLowers i ·) +
        ((b.serveAll rs).1.lineUp i).toNat =
      (b.history rs).countP (HostRaises i ·) + (b.lineUp i).toNat := by
  induction rs generalizing b with
  | nil => rfl
  | cons r rs ih =>
    -- the level between the two accounts cancels out
    have hone := delivers_add hb hi r
    have hrest := ih (hb.serve r)
    rw [history, List.countP_cons, List.countP_cons, List.countP_cons]
    simp only [decide_eq_true_eq]
    show _ + (((b.serve r).1.serveAll rs).1.lineUp i).toNat = _
    omega

/-- A line that is up and that the host does not lower stays up, and is not delivered,
    as long as no cycle offers it delivery. -/
theorem lineUp_serveAll {b : Board} (hb : b.Reachable) {i : Interrupt} (hi : i ≠ .timer)
    {rs : List Request} (hup : b.lineUp i = true) (hkept : .setInterruptLine i false ∉ rs)
    (hoffers : ∀ v ∈ b.history rs, v.2 = .step → ¬v.1.Offers i) :
    (∀ v ∈ b.history rs, ¬Delivers i v) ∧ (b.serveAll rs).1.lineUp i = true := by
  induction rs generalizing b with
  | nil => exact ⟨List.forall_mem_nil _, hup⟩
  | cons r rs ih =>
    rw [history] at hoffers ⊢
    rw [List.forall_mem_cons] at hoffers ⊢
    rw [List.mem_cons, not_or] at hkept
    obtain ⟨hfirst, hrest⟩ := hoffers
    have hnot : ¬Delivers i (b, r) := by
      rintro ⟨hr, htaken⟩
      exact hfirst hr ((taken?_eq_some_iff_offers hb.mirrored hi hup).1 htaken)
    -- neither a cycle without delivery nor any other call of the host takes the line down
    have hnext : (b.serve r).1.lineUp i = true := by
      by_cases hr : r = .step
      · subst hr
        have htaken : b.taken? ≠ some i := fun htaken => hnot ⟨rfl, htaken⟩
        exact (lineUp_step_of_not_taken hb.mirrored hi htaken).trans hup
      · by_contra hdown
        have hbefore : b.lineUp i ≠ false := by
          rw [hup]
          exact nofun
        exact hkept.1 (eq_setInterruptLine_of_moved hr hbefore (Bool.eq_false_iff.2 hdown)).symm
    obtain ⟨hlater, hlast⟩ := ih (hb.serve r) hnext hkept.2 hrest
    exact ⟨⟨hnot, hlater⟩, hlast⟩

/-- **No interrupt of the host is lost or delivered twice.** At any point of any history of
    a new board, the next cycle moves a line of the host by delivery only; the deliveries so
    far, the lowerings by the host and the line if it is up are as many as the raisings by
    the host, which are calls that drive this line; a line that is up and that the host does
    not lower is delivered in the first cycle that offers it delivery, and not before; and
    driving the timer line changes nothing. -/
theorem host_line_conserved (rom : Rom) (config : Config) (before : List Request)
    {i : Interrupt} (hi : i ≠ .timer) :
    let start := Board.new rom config
    let b := (start.serveAll before).1
    let past := start.history before
    b.MovesByDelivery i ∧
    (past.countP (Delivers i ·) + past.countP (HostLowers i ·) + (b.lineUp i).toNat =
      past.countP (HostRaises i ·)) ∧
    past.countP (Delivers i ·) ≤ past.countP (HostRaises i ·) ∧
    (∀ v ∈ past, HostRaises i v → v.2 = .setInterruptLine i true) ∧
    (∀ rs : List Request, b.lineUp i = true → .setInterruptLine i false ∉ rs →
      (∀ v ∈ b.history rs, v.2 = .step → ¬v.1.Offers i) →
      (∀ v ∈ b.history rs, ¬Delivers i v) ∧
      (b.serveAll rs).1.lineUp i = true ∧
      ((b.serveAll rs).1.Offers i → (b.serveAll rs).1.taken? = some i)) ∧
    (∀ level, b.setInterruptLine .timer level = b) := by
  intro start b past
  -- a new board has all lines down, so the account starts at zero
  have hstart : start.Reachable := reachable_new rom config
  have hb : b.Reachable := hstart.serveAll before
  have hdown : start.lineUp i = false := BitVec.getLsbD_zero
  have hbalance := countP_delivers_add hstart hi before
  rw [hdown] at hbalance
  refine ⟨movesByDelivery hb.mirrored hi, hbalance, ?_, ?_, ?_, fun level => rfl⟩
  · exact Nat.le_trans (Nat.le_trans (Nat.le_add_right _ _) (Nat.le_add_right _ _)) hbalance.le
  · rintro v - ⟨hr, hlow, hhigh⟩
    exact eq_setInterruptLine_of_moved hr (by rw [hlow]; exact nofun) hhigh
  · intro rs hup hkept hoffers
    obtain ⟨hnever, hlast⟩ := lineUp_serveAll hb hi hup hkept hoffers
    have hm := (hb.serveAll rs).mirrored
    exact ⟨hnever, hlast, (taken?_eq_some_iff_offers hm hi hlast).2⟩

/-- The external line waits through a cycle with interrupts off and through the delivery
    of the software line, and is delivered when the handler returns. -/
theorem host_line_conserved_of_two :
    let rom := Rom.ofList [(CsrBank.mtvecReset, mretWord)]
    let before : List Request :=
      [.writeCsr Csr.mie.address 0x808, .setInterruptLine .software true,
        .setInterruptLine .external true, .setInterruptLine .external true]
    let rs : List Request := [.step, .writeCsr Csr.mstatus.address 8, .step]
    let b := ((Board.new rom .standard).serveAll before).1
    (∀ v ∈ b.history rs, ¬Delivers .external v) ∧
    (b.serveAll rs).1.taken? = some .external ∧
    ((Board.new rom .standard).history before).countP (HostRaises .external ·) = 1 := by
  intro rom before rs b
  obtain ⟨-, haccount, -, -, hwaits, -⟩ :=
    host_line_conserved rom .standard before (i := .external) (by decide)
  have hup : b.lineUp .external = true := by decide +kernel
  have hoffers : ∀ v ∈ b.history rs, v.2 = .step → ¬v.1.Offers .external := by
    intro v hv hstep hoffers
    simp only [history, rs, List.mem_cons, List.not_mem_nil, or_false] at hv
    rcases hv with rfl | rfl | rfl
    · exact absurd hoffers.enable (by decide +kernel)
    · cases hstep
    · exact hoffers.first .software (by decide) (by decide +kernel)
  obtain ⟨hnever, -, hdelivered⟩ := hwaits rs hup (by decide) hoffers
  refine ⟨hnever, hdelivered ⟨?_, ?_, ?_, ?_⟩, haccount.symm.trans (by decide +kernel)⟩
  · decide +kernel
  · decide +kernel
  · decide +kernel
  · intro j hj
    cases j with
    | timer => decide +kernel
    | software => decide +kernel
    | external => exact absurd hj (by decide)

end Board

end Rv32Sim
