/-
  Rv32Sim.Proofs.Isa.Scan

  A decoder sorts the rows of its table by opcode and answers as if it had not: the first
  row of the whole table that accepts a word is the first one of the word's class too
  (`find?_classOf_build`). That needs every row to be filed under the opcode that its mask
  and key ask for, and every row is, however far its fields are out of range
  (`Row.Written.filed`).
-/
import Rv32Sim.Proofs.Isa.Fields
import Mathlib.Data.List.Find

namespace Rv32Sim

namespace Word

theorem opcode_and (v w : Word) : (v &&& w).opcode = v.opcode &&& w.opcode :=
  BitVec.extractLsb'_and

theorem opcode_or (v w : Word) : (v ||| w).opcode = v.opcode ||| w.opcode :=
  BitVec.extractLsb'_or

/-- What is shifted past the opcode leaves it empty. -/
theorem opcode_shiftLeft (w : Word) {n : Nat} (hn : 7 ≤ n) : opcode (w <<< n) = 0 := by
  apply BitVec.eq_of_getLsbD_eq
  intro i hi
  have hlow : i < n := by omega
  simp [opcode, BitVec.getLsbD_extractLsb', hlow]

/-- A number that is cut to eight bits keeps its opcode. -/
theorem setWidth_setWidth_opcode (w : Word) : (w.setWidth 8).setWidth 7 = w.opcode := by
  apply BitVec.eq_of_toNat_eq
  rw [toNat_opcode, BitVec.toNat_setWidth, BitVec.toNat_setWidth]
  omega

end Word

/-! ## Rows under their opcodes -/

namespace Row

/-- A row as a table can write it: an opcode and funct fields of any value, and then, if at
    all, the bits of funct7 to compare. -/
inductive Written : Row → Prop where
  | ofFields (m : Mnemonic) (format : Format) (opcode : Word) (functs : List Word) :
      Written (.ofFields m format opcode functs)
  | withFunct7Mask {row : Row} (m : Word) : Written row → Written (row.withFunct7Mask m)

/-- A row is filed under the opcode of the words that it accepts: it compares the whole
    opcode field, and its key has its own opcode there. -/
structure Filed (row : Row) : Prop where
  mask : row.mask.opcode = BitVec.allOnes 7
  key : row.key.opcode = row.opcode.setWidth 7

theorem opcode_fieldMask (functs : List Word) :
    (fieldMask functs).opcode = BitVec.allOnes 7 := by
  rw [fieldMask_eq, Word.opcode_ofFields]

theorem opcode_fieldKey (opcode : Word) (functs : List Word) :
    (fieldKey opcode functs).opcode = opcode.opcode := by
  match functs with
  | [] => rfl
  | [funct3] =>
    have h3 : Word.opcode (funct3 <<< 12) = 0 := Word.opcode_shiftLeft funct3 (by decide)
    rw [fieldKey, Word.opcode_or, h3]
    exact BitVec.or_zero
  | funct3 :: funct7 :: _ =>
    have h3 : Word.opcode (funct3 <<< 12) = 0 := Word.opcode_shiftLeft funct3 (by decide)
    have h7 : Word.opcode (funct7 <<< 25) = 0 := Word.opcode_shiftLeft funct7 (by decide)
    rw [fieldKey, Word.opcode_or, Word.opcode_or, h3, h7]
    exact BitVec.or_zero.trans BitVec.or_zero

theorem filed_ofFields (m : Mnemonic) (format : Format) (opcode : Word) (functs : List Word) :
    (ofFields m format opcode functs).Filed := by
  unfold ofFields
  split
  · -- the row of a whole word is filed under the opcode of that word
    have hmask : opcodeMask.opcode = BitVec.allOnes 7 := by decide
    have hkey : (opcode &&& opcodeMask).opcode = opcode.opcode := by
      rw [Word.opcode_and, hmask, BitVec.and_allOnes]
    have hall : Word.opcode (BitVec.allOnes 32) = BitVec.allOnes 7 := by decide
    refine ⟨hall, ?_⟩
    rw [Word.setWidth_setWidth_opcode, hkey]
  · refine ⟨opcode_fieldMask functs, ?_⟩
    rw [Word.setWidth_setWidth_opcode, opcode_fieldKey]

theorem Filed.withFunct7Mask {row : Row} (hrow : row.Filed) (m : Word) :
    (row.withFunct7Mask m).Filed := by
  have hkeep : (~~~funct7Mask).opcode = BitVec.allOnes 7 := by decide
  have hmask : (row.withFunct7Mask m).mask.opcode = BitVec.allOnes 7 := by
    show ((row.mask &&& ~~~funct7Mask) ||| ((m <<< 25) &&& funct7Mask)).opcode = _
    rw [Word.opcode_or, Word.opcode_and, hrow.mask, hkeep, BitVec.and_self,
      BitVec.allOnes_or]
  refine ⟨hmask, ?_⟩
  show (row.key &&& (row.withFunct7Mask m).mask).opcode = _
  rw [Word.opcode_and, hmask, BitVec.and_allOnes]
  exact hrow.key

theorem Written.filed {row : Row} (hrow : row.Written) : row.Filed := by
  induction hrow with
  | ofFields m format opcode functs => exact filed_ofFields m format opcode functs
  | withFunct7Mask m _ ih => exact ih.withFunct7Mask m

/-- A row of an opcode that fits its field accepts words of that opcode only. -/
theorem Filed.opcode_of_accepts {row : Row} (hrow : row.Filed) (hfits : row.opcode.toNat < 128)
    {w : Word} (haccepts : row.accepts w = true) : row.opcode.toNat = w.opcode.toNat := by
  have hop : w.opcode = row.opcode.setWidth 7 :=
    (Row.opcode_of_accepts hrow.mask haccepts).trans hrow.key
  rw [hop, BitVec.toNat_setWidth, Nat.mod_eq_of_lt hfits]

end Row

/-! ## Decoders -/

namespace Decoder

/-- What a linear search through a table makes of a word: the first row that accepts the
    word gives the instruction and its operands. -/
def scan (rows : List Row) (w : Word) : Decoded :=
  match rows.find? (·.accepts w) with
  | some row => ⟨row.mnemonic, .ofWord row.mnemonic w row.format⟩
  | none => ⟨.reserved, .none⟩

variable {rows : List Row}

/-- The first row of the class that accepts a word is the first row of the table that does. -/
theorem find?_classOf_build (hfiled : ∀ row ∈ rows, row.Filed)
    (hfits : ∀ row ∈ rows, row.opcode.toNat < 128) (w : Word) :
    ((build rows).classOf w.opcode).find? (·.accepts w) = rows.find? (·.accepts w) := by
  rw [classOf_build, List.find?_filter]
  apply List.find?_congr
  intro row hrow
  cases haccepts : row.accepts w with
  | false => simp
  | true =>
    have hop : row.opcode.toNat = w.opcode.toNat :=
      (hfiled row hrow).opcode_of_accepts (hfits row hrow) haccepts
    simp [hop]

/-- A word whose opcode some row has is decoded as a linear search would decode it. -/
theorem decode_build_eq_scan (hfiled : ∀ row ∈ rows, row.Filed)
    (hfits : ∀ row ∈ rows, row.opcode.toNat < 128) {w : Word}
    (hop : ∃ row ∈ rows, row.opcode.toNat = w.toNat % 128) :
    (build rows).decode w = some (scan rows w) := by
  have hclass : (build rows).classOf w.opcode ≠ [] := by
    obtain ⟨row, hrow, heq⟩ := hop
    rw [← Word.toNat_opcode] at heq
    exact List.ne_nil_of_mem (mem_classOf_build.2 ⟨hrow, heq⟩)
  have hfind := find?_classOf_build hfiled hfits w
  unfold decode scan
  split
  next hnil => exact absurd hnil hclass
  next =>
    rw [hfind]
    cases rows.find? (·.accepts w) <;> rfl

/-- A table has a decoder unless an opcode in it has no class. -/
theorem ofRows_eq_error_iff (rows : List Row) :
    (∃ e, ofRows rows = .error e) ↔ ∃ row ∈ rows, 128 ≤ row.opcode.toNat := by
  unfold ofRows
  cases hfind : rows.find? fun row => 128 ≤ row.opcode.toNat with
  | none =>
    refine ⟨nofun, ?_⟩
    rintro ⟨row, hrow, hle⟩
    exact absurd (decide_eq_true hle) (List.find?_eq_none.1 hfind row hrow)
  | some row =>
    have hle : decide (128 ≤ row.opcode.toNat) = true :=
      List.find?_some (p := fun row : Row => decide (128 ≤ row.opcode.toNat)) hfind
    exact ⟨fun _ => ⟨row, List.mem_of_find?_eq_some hfind, of_decide_eq_true hle⟩,
      fun _ => ⟨_, rfl⟩⟩

theorem ofRows_eq_ok (hfits : ∀ row ∈ rows, row.opcode.toNat < 128) :
    ofRows rows = .ok (build rows) := by
  have hfind : rows.find? (fun row => 128 ≤ row.opcode.toNat) = none := by
    rw [List.find?_eq_none]
    intro row hrow hle
    exact absurd (of_decide_eq_true hle) (Nat.not_le.2 (hfits row hrow))
  rw [ofRows, hfind]

/-- **Classes and a linear search agree.** A table of any rows, duplicates, overlaps and
    fields out of range included, has a decoder unless one of its opcodes has no class; and
    then the decoder finds no instruction in a word exactly if no row has its opcode, and
    otherwise what the first row of the table that accepts the word makes of it, or a
    reserved encoding if none does. -/
theorem decode_eq_linear_search (hwritten : ∀ row ∈ rows, row.Written) :
    ((∃ e, ofRows rows = .error e) ↔ ∃ row ∈ rows, 128 ≤ row.opcode.toNat) ∧
    ((∀ row ∈ rows, row.opcode.toNat < 128) →
      ∃ d, ofRows rows = .ok d ∧ ∀ w : Word,
        (d.decode w = none ↔ ∀ row ∈ rows, row.opcode.toNat ≠ w.toNat % 128) ∧
        ((∃ row ∈ rows, row.opcode.toNat = w.toNat % 128) →
          d.decode w = some (scan rows w))) := by
  refine ⟨ofRows_eq_error_iff rows, fun hfits => ⟨build rows, ofRows_eq_ok hfits, fun w => ?_⟩⟩
  have hfiled : ∀ row ∈ rows, row.Filed := fun row hrow => (hwritten row hrow).filed
  exact ⟨decode_build_eq_none_iff rows w, decode_build_eq_scan hfiled hfits⟩

/-- The opcode `0x133` is cut to `0x33`, but the ninth bit stays in the key, where no mask
    covers it: the first row accepts nothing. The second one lost that bit with its mask and
    accepts a word that the third, a duplicate of the fourth, accepts as well. -/
theorem decode_eq_linear_search_of_wide :
    let rows : List Row :=
      [.ofFields .xor .r 0x133 [0], (Row.ofFields .add .r 0x133 [0, 0x20]).withFunct7Mask 0,
        .ofFields .sub .i 0x33 [0], .ofFields .sub .i 0x33 [0]]
    (∀ row ∈ rows, row.Written) ∧ (∀ row ∈ rows, row.opcode.toNat < 128) ∧
    ∃ d, ofRows rows = .ok d ∧ d.decode 0x402080B3 = some ⟨.add, .r 1 2 1⟩ ∧
      d.decode 0x1033 = some ⟨.reserved, .none⟩ ∧ d.decode 0x13 = none := by
  intro rows
  have hwritten : ∀ row ∈ rows, row.Written := by
    intro row hrow
    simp only [rows, List.mem_cons, List.not_mem_nil, or_false] at hrow
    rcases hrow with rfl | rfl | rfl | rfl
    · exact .ofFields _ _ _ _
    · exact .withFunct7Mask _ (.ofFields _ _ _ _)
    · exact .ofFields _ _ _ _
    · exact .ofFields _ _ _ _
  have hfits : ∀ row ∈ rows, row.opcode.toNat < 128 := by decide
  obtain ⟨-, hdecoder⟩ := decode_eq_linear_search hwritten
  obtain ⟨d, hd, hdecode⟩ := hdecoder hfits
  have hadd : scan rows 0x402080B3 = ⟨.add, .r 1 2 1⟩ := by decide
  have hreserved : scan rows 0x1033 = ⟨.reserved, .none⟩ := by decide
  refine ⟨hwritten, hfits, d, hd, ?_, ?_, ?_⟩
  · rw [(hdecode 0x402080B3).2 (by decide), hadd]
  · rw [(hdecode 0x1033).2 (by decide), hreserved]
  · exact (hdecode 0x13).1.2 (by decide)

end Decoder

end Rv32Sim
