/-
  Rv32Sim.Proofs.Hart.Csr

  The bank of control and status registers and its copy of the global interrupt
  enable. The copy shows bit 3 of mstatus after every write (`Mirrored.set`,
  `Mirrored.write`), because a write to mstatus is the only one that touches
  either of the two.
-/
import Rv32Sim.Hart.Csr

namespace Rv32Sim

/-! ## Bits of mstatus -/

namespace Word

/-- On entry to a trap bit 7 takes the value of bit 3, and bit 3 is cleared. -/
theorem getLsbD_mstatusOnTrap (w : Word) (j : Nat) :
    w.mstatusOnTrap.getLsbD j =
      if j = mieBit then false else if j = mpieBit then w.getLsbD mieBit else w.getLsbD j := by
  rw [mstatusOnTrap, getLsbD_assignBit _ (by decide), getLsbD_assignBit _ (by decide)]

/-- On return from a trap bit 3 takes the value of bit 7, and bit 7 is cleared. -/
theorem getLsbD_mstatusOnReturn (w : Word) (j : Nat) :
    w.mstatusOnReturn.getLsbD j =
      if j = mpieBit then false else if j = mieBit then w.getLsbD mpieBit else w.getLsbD j := by
  rw [mstatusOnReturn, getLsbD_assignBit _ (by decide), getLsbD_assignBit _ (by decide)]

/-- A second assignment to a bit undoes the first. -/
theorem assignBit_assignBit (w : Word) {i : Nat} (hi : i < 32) (u v : Bool) :
    (w.assignBit i u).assignBit i v = w.assignBit i v := by
  apply BitVec.eq_of_getLsbD_eq
  intro j _
  rw [getLsbD_assignBit _ hi, getLsbD_assignBit _ hi, getLsbD_assignBit _ hi]
  by_cases h : j = i
  · rw [if_pos h, if_pos h]
  · rw [if_neg h, if_neg h, if_neg h]

/-- Entry to a trap and return from it change nothing in mstatus but bit 7. -/
theorem mstatusOnReturn_mstatusOnTrap (w : Word) :
    w.mstatusOnTrap.mstatusOnReturn = w.assignBit mpieBit false := by
  apply BitVec.eq_of_getLsbD_eq
  intro j _
  rw [getLsbD_mstatusOnReturn, getLsbD_assignBit _ (by decide)]
  by_cases hmpie : j = mpieBit
  · rw [if_pos hmpie, if_pos hmpie]
  rw [if_neg hmpie, if_neg hmpie]
  by_cases hmie : j = mieBit
  · rw [if_pos hmie, getLsbD_mstatusOnTrap, hmie]
    rfl
  · rw [if_neg hmie, getLsbD_mstatusOnTrap, if_neg hmie, if_neg hmpie]

/-- Entry to a trap does not look at bit 7. -/
theorem mstatusOnTrap_assignBit (w : Word) (value : Bool) :
    (w.assignBit mpieBit value).mstatusOnTrap = w.mstatusOnTrap := by
  apply BitVec.eq_of_getLsbD_eq
  intro j _
  have hbit (k : Nat) (hk : k ≠ mpieBit) :
      (w.assignBit mpieBit value).getLsbD k = w.getLsbD k := by
    rw [getLsbD_assignBit _ (by decide), if_neg hk]
  rw [getLsbD_mstatusOnTrap, getLsbD_mstatusOnTrap, hbit mieBit (by decide)]
  by_cases hmpie : j = mpieBit
  · rw [if_pos hmpie, if_pos hmpie]
  · rw [if_neg hmpie, if_neg hmpie, hbit j hmpie]

end Word

/-! ## The copy of the enable -/

namespace CsrBank

/-- The copy of the global interrupt enable shows the bit of mstatus. -/
def Mirrored (bank : CsrBank) : Prop :=
  bank.interruptsEnabled = bank.mstatus.getLsbD mieBit

theorem Mirrored.initial : CsrBank.initial.Mirrored := by
  unfold Mirrored
  decide

theorem Mirrored.set {bank : CsrBank} (h : bank.Mirrored) (c : Csr) (w : Word) :
    (bank.set c w).Mirrored := by
  cases c with
  | mstatus => rfl
  | _ => exact h

theorem Mirrored.write {bank : CsrBank} (h : bank.Mirrored) (a : CsrAddress) (w : Word) :
    (bank.write a w).Mirrored := by
  unfold CsrBank.write
  split
  · exact h
  · exact h
  · exact h.set _ _

end CsrBank

end Rv32Sim
