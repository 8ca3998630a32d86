/-
  Rv32Sim.Proofs.Hart.Fetch

  What a hart fetches. It first asks whether memory has content at any of the four addresses
  from its pc on, and reads only then; with nothing there it executes a no-op, which moves it
  on to the next four. So it runs through memory without content, across the registers of the
  devices and the end of the address space alike, and changes nothing on its way but its
  address (`steps_of_blank`).
-/
import Rv32Sim.Proofs.Hart.StoreLoad
import Rv32Sim.Proofs.Memory.Backing

namespace Rv32Sim

/-! ## Words of memory -/

namespace Bus

/-- A word is read from memory byte by byte. -/
theorem byte_read (bus : Bus) {a : Word} (hdevice : ¬AnswersRead a) {i : Nat} (hi : i < 4) :
    (bus.read a .word).byte i = bus.byteAt (a + BitVec.ofNat 32 i) := by
  rw [read_of_not_answersRead bus .word hdevice, byte_load]
  exact if_pos hi

/-- An access is backed if memory has content at one of its addresses. -/
theorem isBacked_iff (bus : Bus) (a : Word) (size : AccessSize) :
    bus.isBacked a size = true ↔
      ∃ i < size.bytes, bus.hasContent (a + BitVec.ofNat 32 i) = true := by
  simp only [isBacked, List.any_eq_true, List.mem_range]

end Bus

/-! ## Fetching -/

namespace Hart

variable {h : Hart}

theorem fetch_of_content
    (hcontent : ∃ i < 4, h.bus.hasContent (h.pc + BitVec.ofNat 32 i) = true) :
    h.fetch = h.bus.read h.pc .word := by
  have hbacked : h.hasInstruction = true := (h.bus.isBacked_iff h.pc .word).2 hcontent
  rw [fetch, if_pos hbacked]

theorem fetch_of_blank (hblank : ∀ i < 4, h.bus.hasContent (h.pc + BitVec.ofNat 32 i) = false) :
    h.fetch = nopWord := by
  have hbacked : ¬h.hasInstruction = true := by
    intro hbacked
    obtain ⟨i, hi, hcontent⟩ := (h.bus.isBacked_iff h.pc .word).1 hbacked
    rw [hblank i hi] at hcontent
    cases hcontent
  rw [fetch, if_neg hbacked]

end Hart

/-! ## No-ops -/

theorem Decoder.decode_nopWord :
    Decoder.standard.decode nopWord = some ⟨.addi, .i 0 0 0⟩ := by
  decide +kernel

namespace Hart

variable {h : Hart}

theorem dispatch_nopWord (h : Hart) :
    (h.dispatch nopWord).1.csrs = h.csrs ∧ (h.dispatch nopWord).1.bus = h.bus ∧
      (h.dispatch nopWord).2.exception = none := by
  unfold dispatch
  rw [Decoder.decode_nopWord]
  exact ⟨rfl, rfl, rfl⟩

/-- While x0 is zero, a no-op only moves on. -/
theorem dispatch_nopWord_of_zero (hzero : h.regs.get Reg.zero = 0) :
    (h.dispatch nopWord).1 = { h with pc := h.pc + 4 } := by
  rw [dispatch_of_result hzero Decoder.decode_nopWord rfl]
  rfl

/-- The hart after `n` instructions. -/
def steps (h : Hart) : Nat → Hart
  | 0 => h
  | n + 1 => (h.steps n).step.1

/-- Where memory has no content a hart moves on and does nothing else. -/
theorem steps_of_blank (hzero : h.regs.get Reg.zero = 0) {n : Nat}
    (hblank : ∀ k < 4 * n, h.bus.hasContent (h.pc + BitVec.ofNat 32 k) = false) :
    h.steps n = { h with pc := h.pc + BitVec.ofNat 32 (4 * n) } := by
  induction n with
  | zero => rw [steps, BitVec.add_zero]
  | succ n ih =>
    have hbefore : h.steps n = { h with pc := h.pc + BitVec.ofNat 32 (4 * n) } :=
      ih fun k hk => hblank k (by omega)
    have hpc (i : Nat) : h.pc + BitVec.ofNat 32 (4 * n) + BitVec.ofNat 32 i =
        h.pc + BitVec.ofNat 32 (4 * n + i) := by
      rw [BitVec.ofNat_add, BitVec.add_assoc]
    have hfetch : (h.steps n).fetch = nopWord := by
      apply fetch_of_blank
      intro i hi
      rw [hbefore]
      show h.bus.hasContent (h.pc + BitVec.ofNat 32 (4 * n) + BitVec.ofNat 32 i) = false
      rw [hpc]
      exact hblank (4 * n + i) (by omega)
    have hzero' : (h.steps n).regs.get Reg.zero = 0 := by
      rw [hbefore]
      exact hzero
    show ((h.steps n).dispatch (h.steps n).fetch).1 = _
    rw [hfetch, dispatch_nopWord_of_zero hzero', hbefore]
    show { h with pc := h.pc + BitVec.ofNat 32 (4 * n) + BitVec.ofNat 32 4 } = _
    rw [hpc]
    rfl

end Hart

end Rv32Sim
