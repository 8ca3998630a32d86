/-
  Rv32Sim.Proofs.Hart.StoreLoad

  What a load brings back of the store before it. The two words give the same address in
  their own ways: each has its own base register and its own offset, laid out differently.
  Between them is memory by bytes (`Bus.read_write`): a store covers one, two or four of them
  counted from its first address, across the end of the address space and into the window of
  a device alike, so long as no device register stands at that first address.
-/
import Rv32Sim.Proofs.Hart.Retire
import Rv32Sim.Proofs.Memory.Flat
import Rv32Sim.Proofs.Memory.Word

namespace Rv32Sim

/-! ## Narrow values -/

namespace Word

/-- The low bytes of a word as a word of their own, with the sign of the topmost of them or
    with zeros above it. -/
def lowBytes (w : Word) : AccessSize → Bool → Word
  | .byte, true => (w.setWidth 8).signExtend 32
  | .byte, false => (w.setWidth 8).setWidth 32
  | .half, true => (w.setWidth 16).signExtend 32
  | .half, false => (w.setWidth 16).setWidth 32
  | .word, _ => w

/-- The first bytes of a word are its low bits. -/
theorem ofBytes_byte_eq_setWidth (w : Word) (size : AccessSize) :
    ofBytes w.byte size = (w.setWidth (8 * size.bytes)).setWidth 32 := by
  apply BitVec.eq_of_getLsbD_eq
  intro j hj
  have hlow : j % 8 < 8 := Nat.mod_lt j (by decide)
  rw [getLsbD_ofBytes, getLsbD_byte, Nat.div_add_mod, BitVec.getLsbD_setWidth,
    BitVec.getLsbD_setWidth, decide_eq_true hlow, decide_eq_true hj, Bool.true_and, Bool.true_and]

/-- A load extends the bytes that it finds as its kind says. -/
theorem extend_ofBytes_byte (w : Word) (size : AccessSize) (signed : Bool) :
    (if signed then (ofBytes w.byte size).signExtendFrom size else ofBytes w.byte size) =
      w.lowBytes size signed := by
  cases size with
  | byte =>
    rw [ofBytes_byte_eq_setWidth]
    cases signed with
    | false => rfl
    | true =>
      exact congrArg (BitVec.signExtend 32)
        (BitVec.setWidth_setWidth_of_le (w.setWidth 8) (by decide))
  | half =>
    rw [ofBytes_byte_eq_setWidth]
    cases signed with
    | false => rfl
    | true =>
      exact congrArg (BitVec.signExtend 32)
        (BitVec.setWidth_setWidth_of_le (w.setWidth 16) (by decide))
  | word =>
    rw [ofBytes_byte]
    cases signed <;> rfl

end Word

/-! ## Memory -/

namespace Bus

/-- Where no device answers reads, none takes writes. -/
theorem not_takesWrite {a : Word} (h : ¬AnswersRead a) : ¬TakesWrite a := by
  rintro (hdata | hstatus | hcmp)
  · exact h (.inl hdata)
  · exact h (.inr (.inl hstatus))
  · exact h (.inr (.inr (.inr hcmp)))

/-- A read finds the bytes of a write of its size to the same address. -/
theorem read_write (bus : Bus) {a : Word} (w : Word) (size : AccessSize) (h : ¬AnswersRead a) :
    (bus.write a w size).read a size = Word.ofBytes w.byte size := by
  rw [read_of_not_answersRead _ size h, load]
  apply Word.ofBytes_congr
  intro i hi
  have hfour : i < 4 := Nat.lt_of_lt_of_le hi size.bytes_le
  -- bytes are counted from the first address, also those behind the end of the address space
  have hback : (a + BitVec.ofNat 32 i - a).toNat = i := by bv_omega
  rw [byteAt_write, hback, if_pos ⟨not_takesWrite h, hi⟩]

end Bus

/-! ## Words -/

/-- The row of the store of a size. -/
def storeRow : AccessSize → Row
  | .byte => .ofFields .sb .s 0b0100011 [0b000]
  | .half => .ofFields .sh .s 0b0100011 [0b001]
  | .word => .ofFields .sw .s 0b0100011 [0b010]

/-- The row of the load of a size, with a sign or without; a whole word has one load. -/
def loadRow : AccessSize → Bool → Row
  | .byte, true => .ofFields .lb .i 0b0000011 [0b000]
  | .byte, false => .ofFields .lbu .i 0b0000011 [0b100]
  | .half, true => .ofFields .lh .i 0b0000011 [0b001]
  | .half, false => .ofFields .lhu .i 0b0000011 [0b101]
  | .word, _ => .ofFields .lw .i 0b0000011 [0b010]

/-- The word of a store of `rs2` at an offset from `rs1`. -/
def storeWord (size : AccessSize) (rs1 rs2 : Reg) (offset : Int) : Word :=
  (storeRow size).assemble (.s rs1 rs2 (.ofInt 12 offset))

/-- The word of a load to `rd` from an offset from `rs1`. -/
def loadWord (size : AccessSize) (signed : Bool) (rs1 rd : Reg) (offset : Int) : Word :=
  (loadRow size signed).assemble (.i rs1 rd (.ofInt 12 offset))

namespace Decoder

theorem decode_storeWord (size : AccessSize) (rs1 rs2 : Reg) (offset : Int) :
    standard.decode (storeWord size rs1 rs2 offset) =
      some ⟨(storeRow size).mnemonic, .s rs1 rs2 (.ofInt 12 offset)⟩ := by
  have hrow : storeRow size ∈ isaTable := by cases size <;> decide
  apply decode_assemble hrow
  cases size <;> trivial

theorem decode_loadWord (size : AccessSize) (signed : Bool) (rs1 rd : Reg) (offset : Int) :
    standard.decode (loadWord size signed rs1 rd offset) =
      some ⟨(loadRow size signed).mnemonic, .i rs1 rd (.ofInt 12 offset)⟩ := by
  have hrow : loadRow size signed ∈ isaTable := by cases size <;> cases signed <;> decide
  apply decode_assemble hrow
  cases size <;> cases signed <;> exact fun hshift => nomatch hshift

-- one offset in both layouts: SW x1, -8(x2) and LW x3, -8(x2)
example : storeWord .word 2 1 (-8) = 0xFE112C23 ∧ loadWord .word false 2 3 (-8) = 0xFF812183 := by
  decide

end Decoder

namespace Hart

variable {h : Hart}

/-- A store writes to memory and goes on, and of the registers only x0 is touched. -/
theorem dispatch_storeWord (h : Hart) (size : AccessSize) (rs1 rs2 : Reg) {offset : Int}
    (hlow : -2048 ≤ offset) (hhigh : offset ≤ 2047) :
    (h.dispatch (storeWord size rs1 rs2 offset)).1 =
      { h with
        pc := h.pc + 4
        regs := h.regs.clearZero
        bus := h.bus.write (BitVec.ofInt 32 ((h.regs.get rs1).toNat + offset))
          (h.regs.get rs2) size } := by
  have haction : (storeRow size).mnemonic.action = .store size := by cases size <;> rfl
  have heffect : h.effect? ⟨(storeRow size).mnemonic, .s rs1 rs2 (.ofInt 12 offset)⟩ =
      some (.retire (h.pc + 4) none
        (.store (BitVec.ofInt 32 ((h.regs.get rs1).toNat + offset)) (h.regs.get rs2) size)) := by
    rw [effect?, haction, ← Word.add_signExtend_ofInt_twelve (h.regs.get rs1) hlow hhigh]
  rw [dispatch_of_effect? (Decoder.decode_storeWord size rs1 rs2 offset) heffect, apply_side]
  rfl

/-- A load brings what it reads to its register, goes on, and does nothing else. -/
theorem dispatch_loadWord (hzero : h.regs.get Reg.zero = 0) (size : AccessSize) (signed : Bool)
    (rs1 rd : Reg) {offset : Int} (hlow : -2048 ≤ offset) (hhigh : offset ≤ 2047) :
    (h.dispatch (loadWord size signed rs1 rd offset)).1 =
      { h with
        pc := h.pc + 4
        regs := h.regs.put rd
          (h.loaded (BitVec.ofInt 32 ((h.regs.get rs1).toNat + offset)) size signed) } := by
  rw [← Word.add_signExtend_ofInt_twelve (h.regs.get rs1) hlow hhigh]
  apply dispatch_of_result hzero (Decoder.decode_loadWord size signed rs1 rd offset)
  cases size <;> cases signed <;> rfl

/-- **Store, then load.** A store to an address where no device stands leaves its value there
    byte by byte, modulo `2 ^ 32`, and changes nothing else but the address of the next
    instruction. A load of the same size, by any base and offset that give the same address,
    then brings the low bytes of the stored register, extended as its kind says, to its own,
    unless that is x0, and changes nothing else either. -/
theorem store_load_exact (h : Hart) (hzero : h.regs.get Reg.zero = 0) (size : AccessSize)
    (rs1 rs2 : Reg) (offset : Int) (hlow : -2048 ≤ offset) (hhigh : offset ≤ 2047) (a : Word)
    (ha : BitVec.ofInt 32 ((h.regs.get rs1).toNat + offset) = a) (hdevice : ¬Bus.AnswersRead a) :
    let stored := h.regs.get rs2
    let h' := (h.dispatch (storeWord size rs1 rs2 offset)).1
    h' = { h with pc := h.pc + 4, bus := { h.bus with ram := h'.bus.ram } } ∧
    (∀ x, h'.bus.ram.read? x =
      if (x - a).toNat < size.bytes then some (stored.byte (x - a).toNat)
      else h.bus.ram.read? x) ∧
    (∀ x, h'.bus.byteAt x =
      if (x - a).toNat < size.bytes then stored.byte (x - a).toNat else h.bus.byteAt x) ∧
    ∀ (signed : Bool) (base rd : Reg) (offset' : Int), -2048 ≤ offset' → offset' ≤ 2047 →
      BitVec.ofInt 32 ((h'.regs.get base).toNat + offset') = a →
      (h'.dispatch (loadWord size signed base rd offset')).1 =
        { h' with pc := h'.pc + 4, regs := h'.regs.put rd (stored.lowBytes size signed) } := by
  intro stored h'
  -- the whole state after the store, from which the load then starts
  have hstore : h' = { h with pc := h.pc + 4, bus := h.bus.write a stored size } := by
    have hdispatch := h.dispatch_storeWord size rs1 rs2 hlow hhigh
    rw [RegFile.clearZero_of_zero hzero, ha] at hdispatch
    exact hdispatch
  have htaken : ¬Bus.TakesWrite a := Bus.not_takesWrite hdevice
  have hwrite : h.bus.write a stored size =
      { h.bus with ram := h.bus.ram.store a stored size.bytes } :=
    Bus.write_of_not_takesWrite h.bus stored size htaken
  refine ⟨?_, ?_, ?_, ?_⟩
  · rw [hstore, hwrite]
  · intro x
    have hbytes : size.bytes ≤ 0x100000000 := Nat.le_trans size.bytes_le (by decide)
    rw [hstore, hwrite]
    exact Ram.read?_store h.bus.ram a stored x size.bytes hbytes
  · intro x
    rw [hstore, Bus.byteAt_write]
    simp only [htaken, not_false_eq_true, true_and]
  · intro signed base rd offset' hlow' hhigh' ha'
    have hzero' : h'.regs.get Reg.zero = 0 := by rw [hstore]; exact hzero
    have hloaded : h'.loaded a size signed = stored.lowBytes size signed := by
      rw [hstore, loaded, Bus.read_write h.bus stored size hdevice, Word.extend_ofBytes_byte]
    rw [dispatch_loadWord hzero' size signed base rd hlow' hhigh', ha', hloaded]

/-- Half a word across the edge of the serial line's window, stored by an offset back and
    loaded by one forth into the register that held its base: its upper byte is memory under
    the register that sends, and the line stays idle. -/
theorem store_load_exact_of_edge :
    let regs := ((RegFile.zeros.set 1 0x10000000).set 2 0x1234F384).set 3 0x0FFFF800
    let h := { Hart.reset .empty .standard with regs }
    let h' := (h.dispatch (storeWord .half 1 2 (-1))).1
    h.regs.get Reg.zero = 0 ∧ ¬Bus.AnswersRead 0x0FFFFFFF ∧
    h'.bus.uart = h.bus.uart ∧
    h'.bus.byteAt Bus.uartData = 0xF3 ∧ h'.bus.byteAt 0x10000001 = h.bus.byteAt 0x10000001 ∧
    (h'.dispatch (loadWord .half true 3 3 2047)).1 =
      { h' with pc := h'.pc + 4, regs := regs.set 3 0xFFFFF384 } := by
  intro regs h h'
  have hzero : h.regs.get Reg.zero = 0 := by decide
  have hdevice : ¬Bus.AnswersRead 0x0FFFFFFF := by decide
  obtain ⟨hframe, -, hbytes, hload⟩ :=
    store_load_exact h hzero .half 1 2 (-1) (by decide) (by decide) 0x0FFFFFFF (by decide) hdevice
  have hregs : h'.regs = regs := congrArg Hart.regs hframe
  have hbase : BitVec.ofInt 32 ((h'.regs.get 3).toNat + 2047) = 0x0FFFFFFF := by
    rw [hregs]
    decide
  have hvalue : (h.regs.get 2).lowBytes .half true = 0xFFFFF384 := by decide
  refine ⟨hzero, hdevice, congrArg (fun h => h.bus.uart) hframe, ?_, ?_, ?_⟩
  · exact (hbytes Bus.uartData).trans (by decide)
  · exact (hbytes 0x10000001).trans (if_neg (by decide))
  · rw [hload true 3 3 2047 (by decide) (by decide) hbase, hregs, hvalue]
    rfl

end Hart

end Rv32Sim
