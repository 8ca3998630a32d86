/-
  Rv32Sim.Proofs.Hart.WellFormed

  What the registers of a hart may hold. The address of the next instruction and the saved
  one are even, the trap vector is a multiple of four, misa is what it was after the reset,
  the copy of the enable shows its bit of mstatus, and x0 is zero.

  None of this is kept alone. Entry to a trap stores the address of the next instruction
  into mepc without the mask that other writes to mepc pass, return from it jumps there,
  and entry jumps to mtvec; so the three addresses carry one another through the induction.
-/
import Rv32Sim.Proofs.Hart.Csr
import Rv32Sim.Proofs.Hart.Effect
import Mathlib.Algebra.Ring.Nat

namespace Rv32Sim

/-! ## Multiples of powers of two -/

namespace Word

/-- Clearing the bits of a mask changes nothing if none of them is set. -/
theorem and_not_eq_self_iff (w mask : Word) : w &&& ~~~mask = w ↔ w &&& mask = 0 := by
  constructor
  · intro h
    rw [← h, BitVec.and_assoc, BitVec.and_comm (~~~mask), BitVec.and_not_self]
    exact BitVec.and_zero
  · intro h
    apply BitVec.eq_of_getLsbD_eq
    intro i hi
    have hbit := congrArg (BitVec.getLsbD · i) h
    simp only [BitVec.getLsbD_and, BitVec.getLsbD_not, BitVec.ofNat_eq_ofNat,
      BitVec.getLsbD_zero] at hbit ⊢
    cases hw : w.getLsbD i with
    | false => rfl
    | true =>
      rw [hw, Bool.true_and] at hbit
      rw [hbit, decide_eq_true hi]
      rfl

/-- A multiple of `2 ^ k` is what clearing its low `k` bits does not change. -/
theorem two_pow_dvd_toNat_iff (w : Word) {k : Nat} (hk : k ≤ 32) :
    2 ^ k ∣ w.toNat ↔ w &&& ~~~(BitVec.ofNat 32 (2 ^ k - 1)) = w := by
  have hpow : 2 ^ k ≤ 2 ^ 32 := Nat.pow_le_pow_right (by decide) hk
  have hpos : 0 < 2 ^ k := Nat.two_pow_pos k
  -- the low bits are the remainder
  have hlow : (w &&& BitVec.ofNat 32 (2 ^ k - 1)).toNat = w.toNat % 2 ^ k := by
    rw [BitVec.toNat_and, BitVec.toNat_ofNat, Nat.mod_eq_of_lt (by omega),
      Nat.and_two_pow_sub_one_eq_mod]
  rw [and_not_eq_self_iff, Nat.dvd_iff_mod_eq_zero, ← hlow, ← BitVec.toNat_inj]
  rfl

/-- The lowest bit tells even numbers from odd ones. -/
theorem two_dvd_toNat_iff (w : Word) : 2 ∣ w.toNat ↔ w.getLsbD 0 = false := by
  rw [BitVec.getLsbD, Nat.testBit_zero, decide_eq_false_iff_not]
  omega

theorem two_dvd_add {v w : Word} (hv : 2 ∣ v.toNat) (hw : 2 ∣ w.toNat) :
    2 ∣ (v + w).toNat := by
  rw [BitVec.toNat_add]
  omega

/-- The repetition of the top bit leaves the lowest bit alone. -/
theorem two_dvd_signExtend {n : Nat} {imm : BitVec n} (hn : 0 < n)
    (himm : imm.getLsbD 0 = false) : 2 ∣ (imm.signExtend 32).toNat := by
  rw [two_dvd_toNat_iff, BitVec.getLsbD_signExtend, if_pos hn, himm, Bool.and_false]

end Word

/-! ## Control and status registers -/

namespace Csr

/-- What a register may hold. -/
def Admits : Csr → Word → Prop
  | misa, w => w = CsrBank.misaValue
  | mtvec, w => 4 ∣ w.toNat
  | mepc, w => 2 ∣ w.toNat
  | _, _ => True

/-- A register other than misa may hold what its mask does not change. -/
theorem admits_iff {c : Csr} (hc : c ≠ misa) (w : Word) :
    c.Admits w ↔ w &&& c.writeMask = w := by
  have hall : True ↔ w &&& BitVec.allOnes 32 = w := by
    rw [BitVec.and_allOnes]
    exact ⟨fun _ => rfl, fun _ => trivial⟩
  cases c with
  | misa => exact absurd rfl hc
  | mtvec => exact w.two_pow_dvd_toNat_iff (k := 2) (by decide)
  | mepc => exact w.two_pow_dvd_toNat_iff (k := 1) (by decide)
  | _ => exact hall

theorem admits_and_writeMask {c : Csr} (hc : c ≠ misa) (w : Word) :
    c.Admits (w &&& c.writeMask) := by
  rw [admits_iff hc, BitVec.and_assoc, BitVec.and_self]

end Csr

namespace CsrBank

/-- The copy of the enable is right, and every register holds what it may hold. -/
structure WellFormed (bank : CsrBank) : Prop where
  mirrored : bank.Mirrored
  admits : ∀ c : Csr, c.Admits (bank.get c)

theorem wellFormed_initial : initial.WellFormed where
  mirrored := .initial
  admits c := by
    cases c with
    | misa => rfl
    | mtvec => exact ⟨0x40, rfl⟩
    | mepc => exact ⟨0, rfl⟩
    | _ => trivial

theorem WellFormed.set {bank : CsrBank} (h : bank.WellFormed) {c : Csr} {w : Word}
    (hw : c.Admits w) : (bank.set c w).WellFormed where
  mirrored := h.mirrored.set c w
  admits d := by
    rw [get_set]
    by_cases hd : d = c
    · rw [if_pos hd, hd]
      exact hw
    · rw [if_neg hd]
      exact h.admits d

theorem WellFormed.write {bank : CsrBank} (h : bank.WellFormed) (a : CsrAddress) (w : Word) :
    (bank.write a w).WellFormed := by
  unfold CsrBank.write
  split
  · exact h
  · exact h
  -- the mask of the register lets through only what it may hold
  next c hc _ => exact h.set (Csr.admits_and_writeMask hc w)

/-- To put back what a register holds changes nothing. -/
theorem set_get {bank : CsrBank} (h : bank.Mirrored) (c : Csr) :
    bank.set c (bank.get c) = bank := by
  cases c with
  | mstatus =>
    show { bank with interruptsEnabled := bank.mstatus.getLsbD mieBit } = bank
    rw [← h]
  | _ => rfl

/-- To write back what was read changes nothing, whatever the address. -/
theorem WellFormed.write_read? {bank : CsrBank} (h : bank.WellFormed) (a : CsrAddress) :
    bank.write a ((bank.read? a).getD 0) = bank := by
  unfold CsrBank.write CsrBank.read?
  split
  · rfl
  · rfl
  next c hc ha =>
    have hkept : bank.get c &&& c.writeMask = bank.get c :=
      (Csr.admits_iff hc _).1 (h.admits c)
    rw [ha, Option.map_some, Option.getD_some, hkept, set_get h.mirrored]

end CsrBank

/-! ## Addresses of the next instruction -/

/-- Offsets of branches and jumps are even. -/
def Operands.EvenOffset : Operands → Prop
  | b _ _ imm => imm.getLsbD 0 = false
  | j _ imm => imm.getLsbD 0 = false
  | _ => True

theorem Operands.evenOffset_ofWord (m : Mnemonic) (w : Word) (f : Format) :
    (ofWord m w f).EvenOffset := by
  cases f with
  | b => exact w.getLsbD_immB_zero
  | j => exact w.getLsbD_immJ_zero
  | _ => trivial

theorem Decoder.evenOffset_of_decode {w : Word} {d : Decoded}
    (hd : standard.decode w = some d) : d.operands.EvenOffset := by
  obtain ⟨row, -, -, -, rfl⟩ | ⟨-, rfl⟩ := decode_build_cases hd
  · exact Operands.evenOffset_ofWord row.mnemonic w row.format
  · trivial

/-- An instruction that retires goes on at an even address. -/
def Effect.EvenNext : Effect → Prop
  | retire next _ _ => 2 ∣ next.toNat
  | _ => True

namespace Hart

variable {h : Hart}

theorem evenNext_of_effect? (hpc : 2 ∣ h.pc.toNat) {d : Decoded}
    (hoffset : d.operands.EvenOffset) {e : Effect} (he : h.effect? d = some e) :
    e.EvenNext := by
  have hfour : 2 ∣ (h.pc + 4).toNat := Word.two_dvd_add hpc (by decide)
  unfold effect? at he
  -- branches, both kinds of jump, and what does not retire are left
  split at he <;> cases he <;> try exact hfour
  next c rs1 rs2 imm _ hops =>
    rw [hops] at hoffset
    show 2 ∣ (if c.holds _ _ then h.pc + imm.signExtend 32 else h.pc + 4).toNat
    split
    · exact Word.two_dvd_add hpc (Word.two_dvd_signExtend (by decide) hoffset)
    · exact hfour
  next rd imm _ hops =>
    rw [hops] at hoffset
    exact Word.two_dvd_add hpc (Word.two_dvd_signExtend (by decide) hoffset)
  next rs1 rd imm _ _ =>
    -- this target is a sum of any two numbers, and its lowest bit is cleared
    show 2 ∣ ((h.regs.get rs1 + imm.signExtend 32) &&& ~~~1#32).toNat
    rw [Word.two_dvd_toNat_iff, BitVec.getLsbD_and]
    exact Bool.and_false _
  · trivial
  · trivial

theorem evenNext_effect (hpc : 2 ∣ h.pc.toNat) (w : Word) :
    (h.effect (Decoder.standard.decode w)).EvenNext := by
  cases hd : Decoder.standard.decode w with
  | none => trivial
  | some d =>
    obtain ⟨e, he⟩ := effect?_of_decode h hd
    rw [effect_of_effect? he]
    exact evenNext_of_effect? hpc (Decoder.evenOffset_of_decode hd) he

/-! ## The hart -/

/-- The control and status registers hold what they may hold, the address of the next
    instruction is even, and x0 is zero. -/
structure WellFormed (h : Hart) : Prop where
  csrs : h.csrs.WellFormed
  pc : 2 ∣ h.pc.toNat
  zero : h.regs.get Reg.zero = 0

theorem wellFormed_reset (rom : Rom) {config : Config} (hreset : 2 ∣ config.resetPc.toNat) :
    (reset rom config).WellFormed where
  csrs := CsrBank.wellFormed_initial
  pc := hreset
  zero := by
    show (RegFile.zeros.set Reg.sp config.initialSp).get Reg.zero = 0
    rw [RegFile.get_set, if_neg (by decide)]
    rfl

theorem WellFormed.enterTrap (hwf : h.WellFormed) (cause : Cause) (trapValue : Word) :
    (h.enterTrap cause trapValue).WellFormed where
  -- the address of the next instruction goes into mepc, and that in mtvec takes its place
  csrs := (((hwf.csrs.set (c := .mepc) hwf.pc).set (c := .mcause) trivial).set
    (c := .mtval) trivial).set (c := .mstatus) trivial
  pc := by
    have hfour : 4 ∣ h.csrs.mtvec.toNat := hwf.csrs.admits .mtvec
    exact Nat.dvd_trans (by decide) hfour
  zero := hwf.zero

theorem WellFormed.leaveTrap (hwf : h.WellFormed) : h.leaveTrap.WellFormed where
  csrs := hwf.csrs.set (c := .mstatus) trivial
  pc := hwf.csrs.admits .mepc
  zero := hwf.zero

theorem WellFormed.applySide (hwf : h.WellFormed) (side : SideEffect) :
    (h.applySide side).WellFormed := by
  cases side with
  | none => exact hwf
  | store a data size => exact ⟨hwf.csrs, hwf.pc, hwf.zero⟩
  | csrWrite a value => exact ⟨hwf.csrs.write a value, hwf.pc, hwf.zero⟩

/-- Whatever stood in x0, clearing it is the last thing that an instruction does. -/
theorem wellFormed_clearZero (hcsrs : h.csrs.WellFormed) (hpc : 2 ∣ h.pc.toNat) :
    h.clearZero.WellFormed where
  csrs := hcsrs
  pc := hpc
  zero := h.regs.get_zero_clearZero

theorem WellFormed.execute (hwf : h.WellFormed) {e : Effect} (he : e.EvenNext) :
    (h.execute e).WellFormed := by
  cases e with
  | retire next result side =>
    have hcsrs := (hwf.applySide side).csrs
    cases result <;> exact wellFormed_clearZero hcsrs he
  | raise e => exact wellFormed_clearZero hwf.csrs hwf.pc
  | leaveTrap => exact wellFormed_clearZero hwf.leaveTrap.csrs hwf.leaveTrap.pc
  | illegal => exact hwf

theorem WellFormed.apply (hwf : h.WellFormed) (raw : Word) {e : Effect} (he : e.EvenNext) :
    (h.apply raw e).WellFormed := by
  unfold Hart.apply
  split
  · exact (hwf.execute he).enterTrap _ _
  · exact hwf.execute he

theorem WellFormed.step (hwf : h.WellFormed) : h.step.1.WellFormed :=
  hwf.apply h.fetch (evenNext_effect hwf.pc h.fetch)

theorem WellFormed.takeInterrupt (hwf : h.WellFormed) : h.takeInterrupt.1.WellFormed := by
  unfold Hart.takeInterrupt
  split
  · exact hwf.enterTrap _ _
  · exact hwf

end Hart

end Rv32Sim
