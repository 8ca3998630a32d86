/-
  Rv32Sim.Proofs.Checked.Hart

  One instruction that stops where a part of it has no result: at operands of a kind that
  its instruction cannot use, at a register that does not exist, in a shift, a division or
  an access. With the operands of a decoded word it stops nowhere and does what the
  instruction does (`checkedEffect_raw`, `checkedStep_eq`).
-/
import Rv32Sim.Proofs.Checked.Memory
import Rv32Sim.Proofs.Checked.Decode

namespace Rv32Sim

/-! ## Registers -/

/-- The register with a number. -/
def Reg.checkedOfByte (id : Byte) : Except Fault Reg := (Reg.ofNat id.toNat).mapError .position

/-- The value of the register with a number. -/
def RegFile.checkedGet (regs : RegFile) (id : Byte) : Except Fault Word :=
  Fault.entry regs.values id.toNat

theorem Reg.toNat_setWidth (r : Reg) : (r.setWidth 8).toNat = r.toNat :=
  BitVec.toNat_setWidth_of_le (by decide)

@[simp] theorem Reg.checkedOfByte_setWidth (r : Reg) :
    Reg.checkedOfByte (r.setWidth 8) = .ok r := by
  have hlt : r.toNat < 32 := r.isLt
  rw [checkedOfByte, Reg.toNat_setWidth, Reg.ofNat, if_pos hlt, BitVec.ofNat_toNat,
    BitVec.setWidth_eq]
  rfl

@[simp] theorem RegFile.checkedGet_setWidth (regs : RegFile) (r : Reg) :
    regs.checkedGet (r.setWidth 8) = .ok (regs.get r) := by
  rw [checkedGet, Reg.toNat_setWidth]
  exact Fault.entry_eq regs.values r.isLt

/-- The place of a register in the table of the bank. -/
def Csr.slot : Csr → Nat
  | mstatus => 0
  | misa => 1
  | mie => 2
  | mtvec => 3
  | mscratch => 4
  | mepc => 5
  | mcause => 6
  | mtval => 7
  | mip => 8

/-- A register with a place in the table. -/
def Csr.checked (c : Csr) : Except Fault Csr :=
  if c.slot < Csr.all.length then .ok c else .error (.position ⟨Csr.all.length, c.slot⟩)

@[simp] theorem Csr.checked_eq (c : Csr) : c.checked = .ok c := by
  cases c <;> rfl

namespace CsrBank

/-- The value of the register at an address, if there is one. -/
def checkedRead? (bank : CsrBank) (a : CsrAddress) : Except Fault (Option Word) :=
  match Csr.ofAddress? a with
  | none => return none
  | some c => do return some (bank.get (← c.checked))

/-- Write to the register at an address, as software does. -/
def checkedWrite (bank : CsrBank) (a : CsrAddress) (w : Word) : Except Fault CsrBank :=
  match Csr.ofAddress? a with
  | none => return bank
  | some .misa => return bank
  | some c => do return bank.set (← c.checked) (w &&& c.writeMask)

theorem checkedRead?_eq (bank : CsrBank) (a : CsrAddress) :
    bank.checkedRead? a = .ok (bank.read? a) := by
  rw [checkedRead?, read?]
  cases Csr.ofAddress? a with
  | none => rfl
  | some c =>
    show (do return some (bank.get (← c.checked)) : Except Fault (Option Word)) = _
    rw [Csr.checked_eq]
    rfl

theorem checkedWrite_eq (bank : CsrBank) (a : CsrAddress) (w : Word) :
    bank.checkedWrite a w = .ok (bank.write a w) := by
  rw [checkedWrite, write]
  cases Csr.ofAddress? a with
  | none => rfl
  | some c => cases c <;> rfl

end CsrBank

/-! ## Arithmetic -/

/-- The result of an operation: shifts and divisions are guarded. -/
def AluOp.checkedEval (op : AluOp) (a b : Word) : Except Fault Word :=
  match op with
  -- a shift masks its amount, a division asks for its divisor
  | sll => a.checkedShiftLeft (b &&& 0x1F).toNat
  | srl => a.checkedShiftRight (b &&& 0x1F).toNat
  | sra => a.checkedSshiftRight (b &&& 0x1F).toNat
  | divu => if b = 0 then return BitVec.allOnes 32 else a.checkedDiv b
  | remu => if b = 0 then return a else a.checkedMod b
  | op => return op.eval a b

@[simp] theorem AluOp.checkedEval_eq (op : AluOp) (a b : Word) :
    op.checkedEval a b = .ok (op.eval a b) := by
  have hamount : (b &&& 0x1F).toNat = b.toNat % 32 := by
    rw [BitVec.toNat_and]
    exact Nat.and_two_pow_sub_one_eq_mod _ 5
  have hlt : b.toNat % 32 < 32 := Nat.mod_lt _ (by decide)
  cases op with
  | sll => rw [checkedEval, hamount]; exact Word.shifted_eq hlt _
  | srl => rw [checkedEval, hamount]; exact Word.shifted_eq hlt _
  | sra => rw [checkedEval, hamount]; exact Word.shifted_eq hlt _
  | divu => by_cases hb : b = 0#32 <;> simp [checkedEval, eval, Word.checkedDiv, hb]
  | remu => by_cases hb : b = 0#32 <;> simp [checkedEval, eval, Word.checkedMod, hb]
  | _ => rfl

namespace Hart

/-! ## Effects -/

/-- The effect of an instruction that only writes a register. -/
def checkedWriting (h : Hart) (rd : Byte) (w : Word) : Except Fault Effect := do
  return h.writing (← Reg.checkedOfByte rd) w

/-- The effect of a CSR instruction. -/
def checkedCsrEffect (h : Hart) (op : CsrOp) (rd : Byte) (a : CsrAddress) (operand : Word) :
    Except Fault Effect := do
  let old := (← h.csrs.checkedRead? a).getD 0
  return .retire (h.pc + 4) (some (← Reg.checkedOfByte rd, old))
    (.csrWrite a (op.eval old operand))

/-- The address that a register and an immediate of 12 bits make. -/
def checkedAddress (h : Hart) (rs1 : Byte) (imm : Word) : Except Fault Word := do
  return (← h.regs.checkedGet rs1) + (← imm.checkedSignExtend 12)

/-- The effect of an instruction on operands, whatever they are. -/
def checkedEffect (h : Hart) (m : Mnemonic) (ops : RawOperands) : Except Fault Effect :=
  match m.action, ops with
  | .arith op, .r rs1 rs2 rd => do
    let a ← h.regs.checkedGet rs1
    let b ← h.regs.checkedGet rs2
    h.checkedWriting rd (← op.checkedEval a b)
  | .arith op, .i rs1 rd imm => do
    let a ← h.regs.checkedGet rs1
    let b ← imm.checkedSignExtend 12
    h.checkedWriting rd (← op.checkedEval a b)
  | .branch c, .b rs1 rs2 imm => do
    let a ← h.regs.checkedGet rs1
    let b ← h.regs.checkedGet rs2
    if c.holds a b then
      return .retire (h.pc + (← imm.checkedSignExtend 13)) none .none
    else
      return .retire (h.pc + 4) none .none
  | .load size signed, .i rs1 rd imm => do
    let w ← h.bus.checkedRead (← h.checkedAddress rs1 imm) size
    if signed then
      h.checkedWriting rd (← w.checkedSignExtend (8 * size.bytes))
    else
      h.checkedWriting rd w
  | .store size, .s rs1 rs2 imm => do
    let a ← h.checkedAddress rs1 imm
    return .retire (h.pc + 4) none (.store a (← h.regs.checkedGet rs2) size)
  | .loadUpper, .u rd imm => h.checkedWriting rd imm
  | .addUpper, .u rd imm => h.checkedWriting rd (h.pc + imm)
  | .jump, .j rd imm => do
    let target := h.pc + (← imm.checkedSignExtend 21)
    return .retire target (some (← Reg.checkedOfByte rd, h.pc + 4)) .none
  | .jumpRegister, .i rs1 rd imm => do
    let target := (← h.checkedAddress rs1 imm) &&& ~~~1#32
    return .retire target (some (← Reg.checkedOfByte rd, h.pc + 4)) .none
  | .csr op false, .i rs1 rd imm => do
    h.checkedCsrEffect op rd (imm.setWidth 16) (← h.regs.checkedGet rs1)
  | .csr op true, .i rs1 rd imm => h.checkedCsrEffect op rd (imm.setWidth 16) (rs1.setWidth 32)
  | .raise e, _ => return .raise e
  | .leaveTrap, _ => return .leaveTrap
  | .nop, _ => return .retire (h.pc + 4) none .none
  | _, _ => .error .operands

@[simp] theorem checkedWriting_setWidth (h : Hart) (rd : Reg) (w : Word) :
    h.checkedWriting (rd.setWidth 8) w = .ok (h.writing rd w) := by
  rw [checkedWriting, Reg.checkedOfByte_setWidth]
  rfl

@[simp] theorem checkedCsrEffect_setWidth (h : Hart) (op : CsrOp) (rd : Reg) (a : CsrAddress)
    (operand : Word) :
    h.checkedCsrEffect op (rd.setWidth 8) a operand = .ok (h.csrEffect op rd a operand) := by
  rw [checkedCsrEffect, CsrBank.checkedRead?_eq, Fault.ok_bind, Reg.checkedOfByte_setWidth]
  rfl

@[simp] theorem checkedAddress_setWidth (h : Hart) (rs1 : Reg) (imm : BitVec 12) :
    h.checkedAddress (rs1.setWidth 8) (imm.setWidth 32) =
      .ok (h.regs.get rs1 + imm.signExtend 32) := by
  rw [checkedAddress, RegFile.checkedGet_setWidth,
    Word.checkedSignExtend_setWidth (by decide) (by decide)]
  rfl

/-- An instruction stops at operands of a kind that it cannot use, and nowhere else. -/
theorem checkedEffect_raw (h : Hart) (d : Decoded) :
    h.checkedEffect d.mnemonic d.operands.raw =
      match h.effect? d with
      | some e => .ok e
      | none => .error .operands := by
  obtain ⟨m, ops⟩ := d
  show h.checkedEffect m ops.raw = _
  unfold checkedEffect effect?
  -- operands that do not fit stop here and have no effect there, whatever is in them
  cases m.action with
  | arith op =>
    cases ops <;> try rfl
    case r rs1 rs2 rd => simp [Operands.raw]
    case i rs1 rd imm => simp [Operands.raw]
  | branch c =>
    cases ops <;> try rfl
    case b rs1 rs2 imm =>
      by_cases htaken : c.holds (h.regs.get rs1) (h.regs.get rs2) = true <;>
        simp [Operands.raw, htaken]
  | load size signed =>
    cases ops <;> try rfl
    case i rs1 rd imm => cases signed <;> simp [Operands.raw, loaded]
  | store size =>
    cases ops <;> try rfl
    case s rs1 rs2 imm => simp [Operands.raw]
  | loadUpper => cases ops <;> simp [Operands.raw]
  | addUpper => cases ops <;> simp [Operands.raw]
  | jump =>
    cases ops <;> try rfl
    case j rd imm => simp [Operands.raw]
  | jumpRegister =>
    cases ops <;> try rfl
    case i rs1 rd imm => simp [Operands.raw]
  | csr op immediate =>
    cases immediate <;> cases ops <;> try rfl
    case false.i rs1 rd imm =>
      have haddress : (imm.setWidth 32).setWidth 16 = imm.setWidth 16 :=
        BitVec.setWidth_setWidth_of_le _ (by decide)
      simp [Operands.raw, haddress]
    case true.i rs1 rd imm =>
      have haddress : (imm.setWidth 32).setWidth 16 = imm.setWidth 16 :=
        BitVec.setWidth_setWidth_of_le _ (by decide)
      have hoperand : (rs1.setWidth 8).setWidth 32 = rs1.setWidth 32 := by
        apply BitVec.eq_of_toNat_eq
        rw [BitVec.toNat_setWidth_of_le (by decide), Reg.toNat_setWidth,
          BitVec.toNat_setWidth_of_le (by decide)]
      simp [Operands.raw, haddress, hoperand]
  | _ => rfl

/-- LUI with the operands of ADD, and ADD with a register past the last one. -/
example (h : Hart) :
    h.checkedEffect .lui (.r 1 2 3) = .error .operands ∧
      h.checkedEffect .add (.r 1 32 3) = .error (.position ⟨32, 32⟩) :=
  ⟨rfl, rfl⟩

/-- The effect of a word, from decoding on. -/
def checkedWordEffect (h : Hart) (w : Word) : Except Fault Effect := do
  match ← Decoder.standard.checkedDecode w with
  | some (m, ops) => h.checkedEffect m ops
  | none => return .illegal

theorem checkedWordEffect_eq (h : Hart) (w : Word) :
    h.checkedWordEffect w = .ok (h.effect (Decoder.standard.decode w)) := by
  rw [checkedWordEffect, Decoder.checkedDecode_eq, Fault.ok_bind]
  cases hd : Decoder.standard.decode w with
  | none => rfl
  | some d =>
    -- the operands of a decoded word are never the reason to stop
    obtain ⟨e, he⟩ := h.effect?_of_decode hd
    have hchecked := h.checkedEffect_raw d
    rw [he] at hchecked
    rw [effect_of_effect? he]
    exact hchecked

/-- No hart stops in the execution of a decoded word. -/
theorem exists_checkedEffect (h : Hart) {w : Word} {m : Mnemonic} {ops : RawOperands}
    (hd : Decoder.standard.checkedDecode w = .ok (some (m, ops))) :
    ∃ e, h.checkedEffect m ops = .ok e := by
  have hword := h.checkedWordEffect_eq w
  rw [checkedWordEffect, hd] at hword
  exact ⟨_, hword⟩

/-! ## Traps -/

/-- Enter the trap handler. -/
def checkedEnterTrap (h : Hart) (cause : Cause) (trapValue : Word) : Except Fault Hart := do
  -- every register is looked up where it is read or written
  let csrs := h.csrs.set (← Csr.mepc.checked) h.pc
  let csrs := csrs.set (← Csr.mcause.checked) cause.value
  let csrs := csrs.set (← Csr.mtval.checked) trapValue
  let status := csrs.get (← Csr.mstatus.checked)
  let csrs := csrs.set (← Csr.mstatus.checked) status.mstatusOnTrap
  return { h with
    csrs
    pc := csrs.get (← Csr.mtvec.checked)
    inTrap := true
    pending := h.pending &&& ~~~cause.line }

/-- Leave the trap handler. -/
def checkedLeaveTrap (h : Hart) : Except Fault Hart := do
  let next := h.csrs.get (← Csr.mepc.checked)
  let status := h.csrs.get (← Csr.mstatus.checked)
  let csrs := h.csrs.set (← Csr.mstatus.checked) status.mstatusOnReturn
  return { h with csrs, pc := next, inTrap := false }

/-- The eligible interrupt of the highest priority. -/
def checkedEligible? (h : Hart) : Except Fault (Option Interrupt) :=
  if h.csrs.interruptsEnabled then do
    let mie := h.csrs.get (← Csr.mie.checked)
    return Interrupt.priority.find? fun i => (h.pending &&& mie).getLsbD i.code
  else
    return none

/-- Take the eligible interrupt of the highest priority, if there is one. -/
def checkedTakeInterrupt (h : Hart) : Except Fault Hart := do
  match ← h.checkedEligible? with
  | some i => h.checkedEnterTrap (.interrupt i) 0
  | none => return h

theorem checkedEnterTrap_eq (h : Hart) (cause : Cause) (trapValue : Word) :
    h.checkedEnterTrap cause trapValue = .ok (h.enterTrap cause trapValue) := by
  simp only [checkedEnterTrap, Csr.checked_eq, Fault.ok_bind]
  rfl

theorem checkedLeaveTrap_eq (h : Hart) : h.checkedLeaveTrap = .ok h.leaveTrap := by
  simp only [checkedLeaveTrap, Csr.checked_eq, Fault.ok_bind]
  rfl

theorem checkedEligible?_eq (h : Hart) : h.checkedEligible? = .ok h.eligible? := by
  rw [checkedEligible?, Csr.checked_eq, eligible?]
  unfold isEligible
  -- without the global enable no line is asked
  cases h.csrs.interruptsEnabled <;> rfl

theorem checkedTakeInterrupt_eq (h : Hart) :
    h.checkedTakeInterrupt = .ok h.takeInterrupt.1 := by
  rw [checkedTakeInterrupt, checkedEligible?_eq, Fault.ok_bind, takeInterrupt]
  cases h.eligible? with
  | none => rfl
  | some i => exact h.checkedEnterTrap_eq (.interrupt i) 0

/-! ## One instruction -/

/-- Carry out an effect up to the trap of an exception. -/
def checkedPerform (h : Hart) : Effect → Except Fault Hart
  | .retire next result .none => return { h.writeBack result with pc := next }
  | .retire next result (.store a data size) => do
    let bus ← h.bus.checkedWrite a data size
    return { ({ h with bus } : Hart).writeBack result with pc := next }
  | .retire next result (.csrWrite a value) => do
    let csrs ← h.csrs.checkedWrite a value
    return { ({ h with csrs } : Hart).writeBack result with pc := next }
  | .raise _ => return h
  | .leaveTrap => h.checkedLeaveTrap
  | .illegal => return h

/-- Execute an instruction, at the end of which x0 is cleared. -/
def checkedExecute (h : Hart) : Effect → Except Fault Hart
  | .illegal => return h
  | effect => return (← h.checkedPerform effect).clearZero

/-- Carry out the effect of the instruction word `raw` and enter the handler of the exception
    that it raises. -/
def checkedApply (h : Hart) (raw : Word) (effect : Effect) : Except Fault Hart := do
  let done ← h.checkedExecute effect
  match effect.exception? with
  | some e => done.checkedEnterTrap (.exception e) (e.trapValue raw)
  | none => return done

/-- The word that the next step executes. -/
def checkedFetch (h : Hart) : Except Fault Word :=
  if h.hasInstruction then h.bus.checkedRead h.pc .word else return nopWord

/-- Execute a word, and tell the exception that it raises. -/
def checkedDispatch (h : Hart) (raw : Word) : Except Fault (Hart × Option Exception) := do
  let effect ← h.checkedWordEffect raw
  return (← h.checkedApply raw effect, effect.exception?)

/-- Fetch and execute one instruction. -/
def checkedStep (h : Hart) : Except Fault (Hart × Option Exception) := do
  h.checkedDispatch (← h.checkedFetch)

theorem checkedPerform_eq (h : Hart) (effect : Effect) :
    h.checkedPerform effect = .ok (h.perform effect) := by
  cases effect with
  | retire next result side =>
    cases side with
    | none => rfl
    | store a data size =>
      rw [checkedPerform, Bus.checkedWrite_eq]
      rfl
    | csrWrite a value =>
      rw [checkedPerform, CsrBank.checkedWrite_eq]
      rfl
  | raise e => rfl
  | leaveTrap => exact h.checkedLeaveTrap_eq
  | illegal => rfl

theorem checkedExecute_eq (h : Hart) (effect : Effect) :
    h.checkedExecute effect = .ok (h.execute effect) := by
  have hperform := h.checkedPerform_eq effect
  cases effect with
  | illegal => rfl
  | _ =>
    simp only [checkedExecute, hperform, Fault.ok_bind]
    rfl

theorem checkedApply_eq (h : Hart) (raw : Word) (effect : Effect) :
    h.checkedApply raw effect = .ok (h.apply raw effect) := by
  rw [checkedApply, checkedExecute_eq, Fault.ok_bind, apply]
  cases effect.exception? with
  | none => rfl
  | some e => exact (h.execute effect).checkedEnterTrap_eq (.exception e) (e.trapValue raw)

theorem checkedFetch_eq (h : Hart) : h.checkedFetch = .ok h.fetch := by
  rw [checkedFetch, fetch, Bus.checkedRead_eq]
  split <;> rfl

theorem checkedDispatch_eq (h : Hart) (raw : Word) :
    h.checkedDispatch raw = .ok ((h.dispatch raw).1, (h.dispatch raw).2.exception) := by
  rw [checkedDispatch, checkedWordEffect_eq, Fault.ok_bind, checkedApply_eq]
  rfl

/-- **An instruction stops nowhere.** On every hart one instruction does what it does
    without checks. -/
theorem checkedStep_eq (h : Hart) : h.checkedStep = .ok (h.step.1, h.step.2.exception) := by
  rw [checkedStep, checkedFetch_eq, Fault.ok_bind, checkedDispatch_eq]
  rfl

end Hart

end Rv32Sim
