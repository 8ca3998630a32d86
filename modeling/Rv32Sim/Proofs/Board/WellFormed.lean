/-
  Rv32Sim.Proofs.Board.WellFormed

  A board that starts at an even address stays well-formed, whatever its host does and
  whatever the program does: every request keeps what the registers of the hart may hold
  (`wellFormed_serve`), and runs are made of requests.
-/
import Rv32Sim.Proofs.Board.Requests
import Rv32Sim.Proofs.Hart.CsrQuery

namespace Rv32Sim

theorem Hart.WellFormed.tick {h : Hart} (hwf : h.WellFormed) : h.tick.WellFormed :=
  ⟨hwf.csrs, hwf.pc, hwf.zero⟩

namespace Board

variable {b : Board}

/-! ## Requests -/

theorem wellFormed_step (hwf : b.hart.WellFormed) : b.step.1.hart.WellFormed := by
  -- neither the tick nor the level of the timer line touches a register
  have hexecuted : b.executed.1.WellFormed := hwf.tick.step
  have hsynced : b.executed.1.syncTimerLine.WellFormed :=
    ⟨hexecuted.csrs, hexecuted.pc, hexecuted.zero⟩
  show (delivered _ _).WellFormed
  unfold delivered
  split
  · exact hsynced.takeInterrupt
  · exact hsynced

theorem wellFormed_serve (hwf : b.hart.WellFormed) (r : Request) :
    (b.serve r).1.hart.WellFormed := by
  cases r with
  | step => exact wellFormed_step hwf
  | setInterruptLine i level =>
    show (b.setInterruptLine i level).hart.WellFormed
    unfold setInterruptLine
    split
    · exact hwf
    · exact ⟨hwf.csrs, hwf.pc, hwf.zero⟩
  | writeCsr a w => exact ⟨hwf.csrs.write a w, hwf.pc, hwf.zero⟩
  | writeMem a data size => exact ⟨hwf.csrs, hwf.pc, hwf.zero⟩
  | readMem a size => exact hwf

/-- Boards stay well-formed through any requests and runs. -/
theorem Leads.wellFormed {last : Board} (hleads : b.Leads last) (hwf : b.hart.WellFormed) :
    last.hart.WellFormed :=
  hleads.induction (motive := fun b => b.hart.WellFormed)
    (fun _ r hb => wellFormed_serve hb r) hwf

/-! ## Queries -/

/-- A cycle that executes a query leaves the control and status registers to the
    interrupts. -/
theorem executed_csrs_of_isCsrQuery (hwf : b.hart.WellFormed)
    (hw : b.hart.tick.fetch.IsCsrQuery) : b.executed.1.csrs = b.hart.csrs := by
  show (b.hart.tick.dispatch b.hart.tick.fetch).1.csrs = b.hart.csrs
  rw [hwf.tick.dispatch_csrQuery hw]
  rfl

/-- **Registers and addresses stay well-formed.** On a board that starts at an even address,
    after any requests and runs, the copy of the enable shows bit 3 of mstatus, misa has its
    value, mtvec is a multiple of four, and mepc and pc are even. Therefore the CSR
    instructions that ask for no change make none, whichever register they name. -/
theorem registers_well_formed (rom : Rom) (config : Config)
    (hreset : 2 ∣ config.resetPc.toNat) {b : Board} (hleads : (Board.new rom config).Leads b) :
    b.hart.csrs.interruptsEnabled = b.hart.csrs.mstatus.getLsbD 3 ∧
    b.hart.csrs.misa = CsrBank.misaValue ∧
    4 ∣ b.hart.csrs.mtvec.toNat ∧
    2 ∣ b.hart.csrs.mepc.toNat ∧
    2 ∣ b.hart.pc.toNat ∧
    (∀ w : Word, w.IsCsrQuery → (b.hart.dispatch w).1.csrs = b.hart.csrs) ∧
    (b.hart.tick.fetch.IsCsrQuery → b.executed.1.csrs = b.hart.csrs) := by
  have hwf : b.hart.WellFormed := hleads.wellFormed (Hart.wellFormed_reset rom hreset)
  have hadmits := hwf.csrs.admits
  refine ⟨hwf.csrs.mirrored, hadmits .misa, hadmits .mtvec, hadmits .mepc, hwf.pc, ?_, ?_⟩
  · intro w hw
    rw [hwf.dispatch_csrQuery hw]
  · exact executed_csrs_of_isCsrQuery hwf

/-- A host gives mtvec and mepc odd values and runs the program into its handler; CSRRSI
    with zero leaves mtvec as it is, as CSRRC with x0 leaves mepc. -/
theorem registers_well_formed_of_odd :
    let built := Board.new (Rom.ofWords [ecallWord]) .standard
    let written := (built.writeCsr Csr.mtvec.address 0x203).writeCsr Csr.mepc.address 0x13
    let b := (written.runUntil fun b => b.hart.inTrap).run
    4 ∣ b.hart.csrs.mtvec.toNat ∧ 2 ∣ b.hart.csrs.mepc.toNat ∧
    (b.hart.dispatch 0x305062F3).1.csrs = b.hart.csrs ∧
    (b.hart.dispatch 0x341032F3).1.csrs = b.hart.csrs := by
  intro built written b
  have hwritten : built.Leads written :=
    .serve (.writeCsr Csr.mepc.address 0x13) (.serve (.writeCsr Csr.mtvec.address 0x203) .start)
  have hb : built.Leads b := .run (.runUntil _ hwritten)
  obtain ⟨-, -, hmtvec, hmepc, -, hquery, -⟩ :=
    registers_well_formed (Rom.ofWords [ecallWord]) .standard (by decide) hb
  exact ⟨hmtvec, hmepc, hquery 0x305062F3 ⟨by decide, by decide, by decide⟩,
    hquery 0x341032F3 ⟨by decide, by decide, by decide⟩⟩

end Board

end Rv32Sim
