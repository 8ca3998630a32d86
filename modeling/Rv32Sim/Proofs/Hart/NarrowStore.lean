/-
  Rv32Sim.Proofs.Hart.NarrowStore

  How much of its data a store uses. Memory takes as many low bytes as the access has, and the
  serial line the lowest one; neither depends on the bytes above. The comparator of the timer
  has no narrow writes: it takes the whole word whatever the size of the access, so there, and
  only there, a narrow store shows the bytes that it is not asked to store
  (`store_uses_low_bytes_iff`, `comparator_takes_whole_word`).
-/
import Rv32Sim.Proofs.Hart.StoreLoad
import Rv32Sim.Proofs.Memory.Backing

namespace Rv32Sim

/-! ## Writes -/

/-- Every access covers its first byte. -/
theorem AccessSize.bytes_pos (size : AccessSize) : 0 < size.bytes := by
  cases size <;> decide

/-- RAM keeps the bytes that it is given, and no others. -/
theorem Ram.store_congr (ram : Ram) (a : Word) {v w : Word} {n : Nat}
    (h : ∀ i < n, v.byte i = w.byte i) : ram.store a v n = ram.store a w n := by
  induction n with
  | zero => rfl
  | succ n ih =>
    have hbelow : ram.store a v n = ram.store a w n := ih fun i hi => h i (by omega)
    rw [store, store, hbelow, h n (by omega)]

namespace Bus

variable {a v w : Word} {size : AccessSize}

/-- The comparator takes the whole word. -/
theorem write_mtimecmp (bus : Bus) (w : Word) (size : AccessSize) :
    bus.write mtimecmp w size = { bus with timer := bus.timer.setCompare w } := rfl

/-- Everywhere else a write uses the bytes that its access covers. -/
theorem write_congr (bus : Bus) (h : ∀ i < size.bytes, v.byte i = w.byte i) (ha : a ≠ mtimecmp) :
    bus.write a v size = bus.write a w size := by
  by_cases htakes : TakesWrite a
  · rcases htakes with rfl | rfl | rfl
    · have hsent : bus.write uartData v size =
          { bus with uart := ⟨bus.uart.sent.push (v.byte 0)⟩ } := rfl
      rw [hsent, h 0 size.bytes_pos]
      rfl
    · rfl
    · exact absurd rfl ha
  · rw [write_of_not_takesWrite bus v size htakes, write_of_not_takesWrite bus w size htakes,
      Ram.store_congr bus.ram a h]

theorem mtimecmp_write_eq_iff (bus : Bus) (h : ∀ i < size.bytes, v.byte i = w.byte i) :
    (bus.write a v size).timer.mtimecmp = (bus.write a w size).timer.mtimecmp ↔
      (a = mtimecmp → v = w) := by
  by_cases ha : a = mtimecmp
  · subst ha
    rw [write_mtimecmp, write_mtimecmp]
    exact ⟨fun hvw _ => hvw, fun hvw => hvw rfl⟩
  · rw [bus.write_congr h ha]
    exact ⟨fun _ hcmp => absurd hcmp ha, fun _ => rfl⟩

theorem write_eq_iff (bus : Bus) (h : ∀ i < size.bytes, v.byte i = w.byte i) :
    bus.write a v size = bus.write a w size ↔ (a = mtimecmp → v = w) := by
  constructor
  · intro heq
    exact (bus.mtimecmp_write_eq_iff h).1 (congrArg (fun bus => bus.timer.mtimecmp) heq)
  · intro hvw
    by_cases ha : a = mtimecmp
    · rw [hvw ha]
    · exact bus.write_congr h ha

end Bus

/-! ## Stores -/

namespace Hart

/-- **What a store uses.** Of two words with the same bytes as far as the access goes a write
    leaves the same memory and the same output, and the same comparator exactly if it is not
    the comparator that is written or the words are the same altogether. So it is with the
    store instructions: of the register that is stored SB uses the lowest byte and SH the two
    lowest, unless the store goes to the comparator. -/
theorem store_uses_low_bytes_iff (h : Hart) (size : AccessSize) :
    (∀ (a v w : Word), (∀ i < size.bytes, v.byte i = w.byte i) →
      let bus₁ := h.bus.write a v size
      let bus₂ := h.bus.write a w size
      bus₁.ram = bus₂.ram ∧ bus₁.rom = bus₂.rom ∧ bus₁.uart = bus₂.uart ∧
      bus₁.timer.mtime = bus₂.timer.mtime ∧
      (bus₁.timer.mtimecmp = bus₂.timer.mtimecmp ↔ (a = Bus.mtimecmp → v = w))) ∧
    ∀ (base rs rs' : Reg) (offset : Int),
      -2048 ≤ offset → offset ≤ 2047 →
      (∀ i < size.bytes, (h.regs.get rs).byte i = (h.regs.get rs').byte i) →
      ((h.dispatch (storeWord size base rs offset)).1 =
          (h.dispatch (storeWord size base rs' offset)).1 ↔
        (BitVec.ofInt 32 ((h.regs.get base).toNat + offset) = Bus.mtimecmp →
          h.regs.get rs = h.regs.get rs')) := by
  refine ⟨?_, ?_⟩
  · intro a v w hbytes bus₁ bus₂
    have hcmp := h.bus.mtimecmp_write_eq_iff (a := a) hbytes
    by_cases ha : a = Bus.mtimecmp
    · subst ha
      exact ⟨rfl, rfl, rfl, rfl, hcmp⟩
    · have heq : bus₁ = bus₂ := h.bus.write_congr hbytes ha
      exact ⟨congrArg Bus.ram heq, congrArg Bus.rom heq, congrArg Bus.uart heq,
        congrArg (fun bus => bus.timer.mtime) heq, hcmp⟩
  · intro base rs rs' offset hlow hhigh hbytes
    rw [← h.bus.write_eq_iff hbytes, h.dispatch_storeWord size base rs hlow hhigh,
      h.dispatch_storeWord size base rs' hlow hhigh]
    constructor
    · exact congrArg Hart.bus
    · intro hbus
      rw [hbus]

/-- SB of two registers that differ above their lowest byte: to memory under the comparator's
    window it does the same, and to the comparator it does not. -/
theorem store_uses_low_bytes_iff_of_byte :
    let regs := ((RegFile.zeros.set 1 0x20000000).set 2 0x00000180).set 3 0xFFFFFF80
    let h := { Hart.reset .empty .standard with regs }
    (∀ i < AccessSize.byte.bytes, (h.regs.get 2).byte i = (h.regs.get 3).byte i) ∧
    (h.dispatch (storeWord .byte 1 2 9)).1 = (h.dispatch (storeWord .byte 1 3 9)).1 ∧
    (h.dispatch (storeWord .byte 1 2 8)).1 ≠ (h.dispatch (storeWord .byte 1 3 8)).1 ∧
    (h.bus.write 0x20000009 0x180 .byte).ram = (h.bus.write 0x20000009 0xFFFFFF80 .byte).ram := by
  intro regs h
  have hbytes : ∀ i < AccessSize.byte.bytes, (h.regs.get 2).byte i = (h.regs.get 3).byte i := by
    decide
  obtain ⟨hwrite, hstore⟩ := store_uses_low_bytes_iff h .byte
  have hnext := hstore 1 2 3 9 (by decide) (by decide) hbytes
  have hcmp := hstore 1 2 3 8 (by decide) (by decide) hbytes
  refine ⟨hbytes, hnext.2 (fun ha => absurd ha (by decide)), ?_, ?_⟩
  · intro heq
    exact absurd (hcmp.1 heq (by decide)) (by decide)
  · exact (hwrite 0x20000009 0x180 0xFFFFFF80 (by decide)).1

/-- A write of one byte to the comparator takes more than that byte: from a comparator at
    zero, two words with the same lowest byte leave different comparators. -/
theorem comparator_takes_whole_word :
    let bus := (Bus.ofRom .empty).write Bus.mtimecmp 0 .word
    (0x000 : Word).byte 0 = (0x100 : Word).byte 0 ∧
    (bus.write Bus.mtimecmp 0x000 .byte).timer.mtimecmp = 0x000 ∧
    (bus.write Bus.mtimecmp 0x100 .byte).timer.mtimecmp = 0x100 := by
  decide

end Hart

end Rv32Sim
