/-
  Rv32Sim.Proofs.Hart.Access

  The instructions that reach beyond the general registers: loads, stores and CSR
  instructions. The opcode and funct3 of a word tell whether it is one of them and which
  (`Word.access?`), and the word then has the effect of that kind (`effect_load`,
  `effect_store`, `effect_csr`). No other word writes to the address space
  (`dispatch_bus`) or asks for a write to a CSR (`access?_of_side`).
-/
import Rv32Sim.Proofs.Hart.Effect

namespace Rv32Sim

/-! ## Kinds by opcode and funct3 -/

/-- Whether instructions of a kind reach beyond the general registers. -/
def Action.isAccess : Action → Bool
  | .load _ _ => true
  | .store _ => true
  | .csr _ _ => true
  | _ => false

/-- The load, store or CSR instruction that a word stands for, if it is one. -/
def Word.access? (w : Word) : Option Action :=
  match w.opcode, w.funct3 with
  | 0b0000011#7, 0b000#3 => some (.load .byte true)
  | 0b0000011#7, 0b001#3 => some (.load .half true)
  | 0b0000011#7, 0b010#3 => some (.load .word false)
  | 0b0000011#7, 0b100#3 => some (.load .byte false)
  | 0b0000011#7, 0b101#3 => some (.load .half false)
  | 0b0100011#7, 0b000#3 => some (.store .byte)
  | 0b0100011#7, 0b001#3 => some (.store .half)
  | 0b0100011#7, 0b010#3 => some (.store .word)
  | 0b1110011#7, 0b001#3 => some (.csr .write false)
  | 0b1110011#7, 0b010#3 => some (.csr .set false)
  | 0b1110011#7, 0b011#3 => some (.csr .clear false)
  | 0b1110011#7, 0b101#3 => some (.csr .write true)
  | 0b1110011#7, 0b110#3 => some (.csr .set true)
  | 0b1110011#7, 0b111#3 => some (.csr .clear true)
  | _, _ => none

theorem isaTable_access : ∀ row ∈ isaTable, row.mnemonic.action.isAccess = true →
    row.mask = Row.fieldMask [0] ∧ row.mnemonic.isImmediateShift = false ∧
      row.key.access? = some row.mnemonic.action := by
  decide +kernel

variable {w : Word} {action : Action}

theorem exists_row_of_access? (hw : w.access? = some action) :
    ∃ row ∈ isaTable, row.mask = Row.fieldMask [0] ∧ w.opcode = row.key.opcode ∧
      w.funct3 = row.key.funct3 ∧ row.mnemonic.action = action ∧ action.isAccess = true := by
  unfold Word.access? at hw
  split at hw <;> cases hw <;> simp only [*] <;> decide +kernel

/-- Such a word decodes to an instruction of its kind, with operands that it can use. -/
theorem decode_of_access? (hw : w.access? = some action) :
    ∃ (m : Mnemonic) (f : Format), m.action = action ∧ action.fits f = true ∧
      m.isImmediateShift = false ∧
      Decoder.standard.decode w = some ⟨m, .ofWord m w f⟩ := by
  obtain ⟨row, hrow, hmask, hop, hfunct3, rfl, haccess⟩ := exists_row_of_access? hw
  obtain ⟨-, hshift, -⟩ := isaTable_access row hrow haccess
  exact ⟨row.mnemonic, row.format, rfl, isaTable_fits row hrow, hshift,
    Decoder.decode_of_funct3 hrow hmask hop hfunct3⟩

/-- No other word decodes to an instruction of such a kind. -/
theorem access?_of_decode {d : Decoded} (hd : Decoder.standard.decode w = some d)
    (haccess : d.mnemonic.action.isAccess = true) : w.access? = some d.mnemonic.action := by
  obtain ⟨row, hrow, -, haccepts, rfl⟩ | ⟨-, rfl⟩ := Decoder.decode_build_cases hd
  · obtain ⟨hmask, -, hkey⟩ := isaTable_access row hrow haccess
    have hop : w.opcode = row.key.opcode :=
      Row.opcode_of_accepts (by rw [hmask]; decide) haccepts
    have hfunct3 : w.funct3 = row.key.funct3 :=
      Row.funct3_of_accepts (by rw [hmask]; decide) haccepts
    -- the kind is read off these two fields alone
    rw [← hkey, Word.access?, hop, hfunct3]
    rfl
  · cases haccess

namespace Hart

variable {h : Hart}

/-! ## Their effects -/

/-- The address that a load reads from. -/
def loadAddress (h : Hart) (w : Word) : Word := h.regs.get w.rs1 + w.immI.signExtend 32

/-- The address that a store writes to. -/
def storeAddress (h : Hart) (w : Word) : Word := h.regs.get w.rs1 + w.immS.signExtend 32

/-- The operand of a CSR instruction: the field itself, or the register that it names. -/
def csrOperand (h : Hart) (w : Word) (immediate : Bool) : Word :=
  if immediate then w.rs1.setWidth 32 else h.regs.get w.rs1

theorem effect_load (h : Hart) {size : AccessSize} {signed : Bool}
    (hw : w.access? = some (.load size signed)) :
    h.effect (Decoder.standard.decode w) =
      h.writing w.rd (h.loaded (h.loadAddress w) size signed) := by
  obtain ⟨m, f, haction, hfits, hshift, hd⟩ := decode_of_access? hw
  rw [hd]
  apply effect_of_effect?
  cases f <;> cases hfits
  rw [effect?, haction, Operands.ofWord, hshift]
  rfl

theorem effect_store (h : Hart) {size : AccessSize} (hw : w.access? = some (.store size)) :
    h.effect (Decoder.standard.decode w) =
      .retire (h.pc + 4) none (.store (h.storeAddress w) (h.regs.get w.rs2) size) := by
  obtain ⟨m, f, haction, hfits, -, hd⟩ := decode_of_access? hw
  rw [hd]
  apply effect_of_effect?
  cases f <;> cases hfits
  rw [effect?, haction]
  rfl

theorem effect_csr (h : Hart) {op : CsrOp} {immediate : Bool}
    (hw : w.access? = some (.csr op immediate)) :
    h.effect (Decoder.standard.decode w) =
      h.csrEffect op w.rd (w.immI.setWidth 16) (h.csrOperand w immediate) := by
  obtain ⟨m, f, haction, hfits, hshift, hd⟩ := decode_of_access? hw
  rw [hd]
  apply effect_of_effect?
  cases f <;> cases hfits
  rw [effect?, haction, Operands.ofWord, hshift]
  cases immediate <;> rfl

/-! ## Writes besides the register result -/

end Hart

/-- The write besides the register result. -/
def Effect.side : Effect → SideEffect
  | retire _ _ side => side
  | raise _ => .none
  | leaveTrap => .none
  | illegal => .none

namespace Hart

variable {h : Hart}

/-- Only instructions of the kind of a write ask for it. -/
theorem action_of_side {d : Decoded} {e : Effect} (he : h.effect? d = some e) :
    match e.side with
    | .none => True
    | .store _ _ size => d.mnemonic.action = .store size
    | .csrWrite _ _ => ∃ op immediate, d.mnemonic.action = .csr op immediate := by
  unfold effect? at he
  split at he <;> cases he <;> first | trivial | assumption | exact ⟨_, _, ‹_›⟩

/-- Stores and CSR instructions are the words that ask for a write of their kind. -/
theorem access?_of_side (h : Hart) (w : Word) :
    match (h.effect (Decoder.standard.decode w)).side with
    | .none => True
    | .store _ _ size => w.access? = some (.store size)
    | .csrWrite _ _ => ∃ op immediate, w.access? = some (.csr op immediate) := by
  cases hd : Decoder.standard.decode w with
  | none => trivial
  | some d =>
    obtain ⟨e, he⟩ := effect?_of_decode h hd
    have haction := action_of_side he
    have haccess := access?_of_decode hd
    rw [effect_of_effect? he]
    split
    next => trivial
    next a data size hside =>
      rw [hside] at haction
      rw [haction] at haccess
      exact haccess rfl
    next a value hside =>
      rw [hside] at haction
      obtain ⟨op, immediate, haction⟩ := haction
      rw [haction] at haccess
      exact ⟨op, immediate, haccess rfl⟩

theorem apply_bus (h : Hart) (raw : Word) (e : Effect) :
    (h.apply raw e).bus =
      match e.side with
      | .store a data size => h.bus.write a data size
      | _ => h.bus := by
  cases e with
  | retire next result side => cases side <;> cases result <;> rfl
  | raise e => rfl
  | leaveTrap => rfl
  | illegal => rfl

/-- An instruction changes the address space only if it is a store. -/
theorem dispatch_bus (h : Hart) (w : Word) :
    (h.dispatch w).1.bus =
      match w.access? with
      | some (.store size) => h.bus.write (h.storeAddress w) (h.regs.get w.rs2) size
      | _ => h.bus := by
  have haccess := h.access?_of_side w
  rw [dispatch_hart]
  split
  next size hw => rw [h.effect_store hw, apply_bus, Effect.side]
  next hnot =>
    -- what is no store asks for no store
    rw [apply_bus]
    split
    next a data size hside =>
      rw [hside] at haccess
      exact absurd haccess (hnot size)
    next => rfl

end Hart

end Rv32Sim
