/-
  Rv32Sim.Proofs.Isa.Overlap

  Words that more than one row of the tables accepts, and what the order of the rows decides.
  Two rows share a word only if their keys agree wherever both compare, which is a question
  about the rows alone; of all pairs, those of MUL with ADD and of DIVU with SRL are the only
  ones that do (`isaTable_agree`). So the order of the whole table comes down to the order
  within these two pairs (`Decoder.table_order_exact`).
-/
import Rv32Sim.Proofs.Isa.RoundTrip

namespace Rv32Sim

/-! ## Rows that share words -/

namespace Row

/-- Whether two rows ask for the same bits wherever both compare. -/
def Agrees (a b : Row) : Prop := a.key &&& b.mask = b.key &&& a.mask

instance (a b : Row) : Decidable (a.Agrees b) := inferInstanceAs (Decidable (_ = _))

/-- Rows that accept a common word agree. -/
theorem agrees_of_accepts {a b : Row} {w : Word} (ha : a.accepts w = true)
    (hb : b.accepts w = true) : a.Agrees b := by
  have hkeyA : w &&& a.mask = a.key := beq_iff_eq.1 ha
  have hkeyB : w &&& b.mask = b.key := beq_iff_eq.1 hb
  rw [Agrees, ← hkeyA, ← hkeyB, BitVec.and_assoc, BitVec.and_assoc, BitVec.and_comm a.mask]

end Row

/-- Whether the words of an instruction are encodings of another one as well, which compares
    fewer bits of them. -/
def Mnemonic.Shadows (first second : Mnemonic) : Prop :=
  (first, second) ∈ [(mul, add), (divu, srl)]

instance (first second : Mnemonic) : Decidable (first.Shadows second) :=
  inferInstanceAs (Decidable (_ ∈ _))

theorem Mnemonic.shadows_iff {first second : Mnemonic} :
    first.Shadows second ↔ first = mul ∧ second = add ∨ first = divu ∧ second = srl := by
  simp only [Shadows, List.mem_cons, List.not_mem_nil, or_false, Prod.mk.injEq]

/-- A shadow casts none itself. -/
theorem Mnemonic.Shadows.not_shadows {a b c : Mnemonic} (hab : a.Shadows b) : ¬b.Shadows c := by
  rcases shadows_iff.1 hab with ⟨-, rfl⟩ | ⟨-, rfl⟩
  · simp [shadows_iff]
  · simp [shadows_iff]

theorem isaTable_agree : ∀ a ∈ isaTable, ∀ b ∈ isaTable, a.Agrees b →
    a = b ∨ a.mnemonic.Shadows b.mnemonic ∨ b.mnemonic.Shadows a.mnemonic := by
  decide +kernel

theorem isaTable_order : isaTable.Pairwise fun before row =>
    before ≠ row ∧ ¬row.mnemonic.Shadows before.mnemonic := by
  decide +kernel

/-- An instruction has one row. -/
theorem nodup_mnemonics : (isaTable.map (·.mnemonic)).Nodup := by
  decide +kernel

/-- Of the rows that accept a word, each one shadows all that follow. -/
theorem shadows_accepting (w : Word) :
    (isaTable.filter (·.accepts w)).Pairwise fun before row =>
      before.mnemonic.Shadows row.mnemonic := by
  apply (isaTable_order.filter _).imp_of_mem
  rintro before row hbefore hrow ⟨hne, hnot⟩
  obtain ⟨hbeforeTable, hbeforeAccepts⟩ := List.mem_filter.1 hbefore
  obtain ⟨hrowTable, hrowAccepts⟩ := List.mem_filter.1 hrow
  have hagrees : before.Agrees row := Row.agrees_of_accepts hbeforeAccepts hrowAccepts
  rcases isaTable_agree before hbeforeTable row hrowTable hagrees with heq | hshadows | hshadows
  · exact absurd heq hne
  · exact hshadows
  · exact absurd hshadows hnot

/-- A word is accepted by no row, or by one, or by two of which the first shadows the second. -/
theorem accepting_cases (w : Word) :
    (isaTable.filter (·.accepts w)).length ≤ 1 ∨
    ∃ first second, isaTable.filter (·.accepts w) = [first, second] ∧
      first.mnemonic.Shadows second.mnemonic := by
  have hpairs := shadows_accepting w
  generalize isaTable.filter (·.accepts w) = rows at hpairs
  match rows, hpairs with
  | [], _ => exact .inl (Nat.zero_le 1)
  | [_], _ => exact .inl (Nat.le_refl 1)
  | [first, second], hpairs =>
    rw [List.pairwise_cons] at hpairs
    exact .inr ⟨first, second, rfl, hpairs.1 second List.mem_cons_self⟩
  | first :: second :: third :: rest, hpairs =>
    -- the second row would be shadowed and cast a shadow
    obtain ⟨hfirst, hsecond⟩ := List.pairwise_cons.1 hpairs
    have hlater := (List.pairwise_cons.1 hsecond).1 third List.mem_cons_self
    exact absurd hlater (hfirst second List.mem_cons_self).not_shadows

/-! ## Tables in another order -/

/-- In a list without duplicates two elements stand in one order only. -/
theorem not_sublist_swap {l : List Mnemonic} {a b : Mnemonic} (hl : l.Nodup)
    (hab : [a, b].Sublist l) : ¬[b, a].Sublist l := by
  obtain ⟨front, back, rfl, ha, hb⟩ := List.cons_sublist_iff.1 hab
  obtain ⟨-, -, hdisjoint⟩ := List.nodup_append.1 hl
  rw [List.singleton_sublist] at hb
  intro hba
  obtain ⟨inFront, inBack, heq, hfront, hback⟩ := List.sublist_append_iff.1 hba
  cases inFront with
  | nil =>
    -- both are in the back, but `a` is in the front
    rw [List.nil_append] at heq
    have haBack : a ∈ back := hback.subset (by simp [← heq])
    exact hdisjoint a ha a haBack rfl
  | cons first rest =>
    obtain rfl : b = first := (List.cons.inj heq).1
    exact hdisjoint b (hfront.subset List.mem_cons_self) b hb rfl

namespace Decoder

variable {rows : List Row}

/-- A table of the same rows, in which no row stands behind one that it shadows. -/
theorem order_of_sublist (hperm : rows.Perm isaTable)
    (hbefore : ∀ first second : Mnemonic, first.Shadows second →
      [first, second].Sublist (rows.map (·.mnemonic))) :
    rows.Pairwise fun before row => ¬row.mnemonic.Shadows before.mnemonic := by
  have hnodup : (rows.map (·.mnemonic)).Nodup :=
    (hperm.map _).nodup_iff.2 nodup_mnemonics
  rw [List.pairwise_iff_forall_sublist]
  intro before row hsub hshadows
  have hnames : [before.mnemonic, row.mnemonic].Sublist (rows.map (·.mnemonic)) :=
    hsub.map Row.mnemonic
  exact not_sublist_swap hnodup (hbefore _ _ hshadows) hnames

/-- The rows that accept a word stand in the same order in every such table. -/
theorem filter_accepts_of_perm (hperm : rows.Perm isaTable)
    (horder : rows.Pairwise fun before row => ¬row.mnemonic.Shadows before.mnemonic)
    (w : Word) : rows.filter (·.accepts w) = isaTable.filter (·.accepts w) := by
  have hstandard := (isaTable_order.imp And.right).filter (·.accepts w)
  refine List.Perm.eq_of_pairwise ?_ (horder.filter _) hstandard (hperm.filter _)
  intro a b ha hb hab hba
  obtain ⟨haRows, haAccepts⟩ := List.mem_filter.1 ha
  obtain ⟨hbTable, hbAccepts⟩ := List.mem_filter.1 hb
  have hagrees : a.Agrees b := Row.agrees_of_accepts haAccepts hbAccepts
  rcases isaTable_agree a (hperm.mem_iff.1 haRows) b hbTable hagrees with heq | hshadows | hshadows
  · exact heq
  · exact absurd hshadows hba
  · exact absurd hshadows hab

/-- The decoder of a table with the same rows, as a linear search. -/
theorem decode_of_perm (hperm : rows.Perm isaTable) {w : Word}
    (hop : ∃ row ∈ isaTable, row.opcode.toNat = w.toNat % 128) :
    (build rows).decode w = some (scan rows w) := by
  apply decode_build_eq_scan
  · exact fun row hrow => isaTable_filed row (hperm.mem_iff.1 hrow)
  · exact fun row hrow => isaTable_opcode_lt row (hperm.mem_iff.1 hrow)
  · obtain ⟨row, hrow, heq⟩ := hop
    exact ⟨row, hperm.mem_iff.2 hrow, heq⟩

/-- Tables of the same rows decode a word alike if their first row to accept it is the same. -/
theorem decode_eq_of_find? (hperm : rows.Perm isaTable) {w : Word}
    (hfind : rows.find? (·.accepts w) = isaTable.find? (·.accepts w)) :
    (build rows).decode w = standard.decode w := by
  by_cases hop : ∃ row ∈ isaTable, row.opcode.toNat = w.toNat % 128
  · have hstandard : standard.decode w = some (scan isaTable w) := decode_of_perm (.refl _) hop
    rw [decode_of_perm hperm hop, hstandard, scan, scan, hfind]
  · have hnone : ∀ row ∈ isaTable, row.opcode.toNat ≠ w.toNat % 128 :=
      fun row hrow heq => hop ⟨row, hrow, heq⟩
    have hrows : (build rows).decode w = none :=
      (decode_build_eq_none_iff rows w).2 fun row hrow => hnone row (hperm.mem_iff.1 hrow)
    rw [hrows]
    exact ((decode_build_eq_none_iff isaTable w).2 hnone).symm

/-- A linear search names the first of the rows that accept the word. -/
theorem mnemonic_scan (rows : List Row) (w : Word) :
    (scan rows w).mnemonic =
      ((rows.filter (·.accepts w)).map (·.mnemonic)).headD .reserved := by
  rw [scan, ← List.head?_filter]
  cases rows.filter (·.accepts w) <;> rfl

/-- Where two rows accept a word, a table that decodes it as the standard one does has these
    two in the standard order. -/
theorem sublist_of_decode (hperm : rows.Perm isaTable) {first second : Mnemonic} {w : Word}
    (hop : ∃ row ∈ isaTable, row.opcode.toNat = w.toNat % 128)
    (haccepting : (isaTable.filter (·.accepts w)).map (·.mnemonic) = [first, second])
    (hdecode : (build rows).decode w = standard.decode w) :
    [first, second].Sublist (rows.map (·.mnemonic)) := by
  have hscan : scan rows w = scan isaTable w := by
    have hstandard : standard.decode w = some (scan isaTable w) := decode_of_perm (.refl _) hop
    rw [decode_of_perm hperm hop, hstandard] at hdecode
    exact Option.some.inj hdecode
  have hsame : ((rows.filter (·.accepts w)).map (·.mnemonic)).Perm [first, second] :=
    haccepting ▸ (hperm.filter _).map _
  have hhead : ((rows.filter (·.accepts w)).map (·.mnemonic)).headD .reserved = first := by
    rw [← mnemonic_scan, hscan, mnemonic_scan, haccepting, List.headD_cons]
  have hfilter : (rows.filter (·.accepts w)).map (·.mnemonic) = [first, second] := by
    generalize (rows.filter (·.accepts w)).map (·.mnemonic) = names at hsame hhead
    cases names with
    | nil => exact absurd hsame.length_eq (by simp)
    | cons head rest =>
      obtain rfl : head = first := hhead
      rw [List.perm_singleton.1 ((List.perm_cons head).1 hsame)]
  rw [← hfilter]
  exact List.filter_sublist.map _

/-- **The order of the tables.** No word is accepted by more than two rows, and by two only if
    they are those of MUL and ADD or of DIVU and SRL. A table of all the rows in any order has a
    decoder, and it decodes every word as the standard one does exactly if MUL stands before ADD
    and DIVU before SRL. -/
theorem table_order_exact :
    (∀ w : Word,
      let accepting := isaTable.filter (·.accepts w)
      accepting.length ≤ 2 ∧
      (accepting.length = 2 →
        accepting.map (·.mnemonic) ∈ [[Mnemonic.mul, .add], [.divu, .srl]])) ∧
    (∀ rows : List Row, rows.Perm isaTable →
      ∃ d, ofRows rows = .ok d ∧
        ((∀ w, d.decode w = standard.decode w) ↔
          [Mnemonic.mul, .add].Sublist (rows.map (·.mnemonic)) ∧
          [Mnemonic.divu, .srl].Sublist (rows.map (·.mnemonic)))) := by
  refine ⟨?_, ?_⟩
  · intro w accepting
    rcases accepting_cases w with hle | ⟨first, second, hrows, hshadows⟩
    · have hlength : accepting.length ≤ 1 := hle
      exact ⟨by omega, fun h => by omega⟩
    · have haccepting : accepting = [first, second] := hrows
      rw [haccepting]
      refine ⟨Nat.le_refl 2, fun _ => ?_⟩
      rcases Mnemonic.shadows_iff.1 hshadows with ⟨hfirst, hsecond⟩ | ⟨hfirst, hsecond⟩
      · simp [hfirst, hsecond]
      · simp [hfirst, hsecond]
  · intro rows hperm
    have hfits : ∀ row ∈ rows, row.opcode.toNat < 128 :=
      fun row hrow => isaTable_opcode_lt row (hperm.mem_iff.1 hrow)
    refine ⟨build rows, ofRows_eq_ok hfits, ?_, ?_⟩
    · intro hdecode
      -- the words of MUL and DIVU with all operands x0 tell the orders apart
      exact ⟨sublist_of_decode (w := 0x02000033) hperm (by decide) (by decide +kernel) (hdecode _),
        sublist_of_decode (w := 0x02005033) hperm (by decide) (by decide +kernel) (hdecode _)⟩
    · rintro ⟨hmul, hdivu⟩ w
      apply decode_eq_of_find? hperm
      have horder := order_of_sublist hperm <| by
        intro first second hshadows
        rcases Mnemonic.shadows_iff.1 hshadows with ⟨rfl, rfl⟩ | ⟨rfl, rfl⟩
        · exact hmul
        · exact hdivu
      rw [← List.head?_filter, ← List.head?_filter, filter_accepts_of_perm hperm horder]

/-- The base table backwards behind the multiplication table backwards: SUB now comes before
    ADD and SRA before SRL, and nothing changes. With the base table in front, the word of MUL
    is another one's. -/
theorem table_order_exact_of_reversed :
    let kept := csrTable ++ multiplyTable.reverse ++ baseTable.reverse ++ systemTable
    let broken := baseTable ++ multiplyTable ++ systemTable ++ csrTable
    kept.Perm isaTable ∧ broken.Perm isaTable ∧
    (∃ d, ofRows kept = .ok d ∧ ∀ w, d.decode w = standard.decode w) ∧
    (∃ d, ofRows broken = .ok d ∧ ∃ w, d.decode w ≠ standard.decode w) := by
  intro kept broken
  have hkept : kept.Perm isaTable := by decide +kernel
  have hbroken : broken.Perm isaTable := by decide +kernel
  obtain ⟨-, horder⟩ := table_order_exact
  obtain ⟨d, hd, hdecode⟩ := horder kept hkept
  obtain ⟨d', hd', hdecode'⟩ := horder broken hbroken
  refine ⟨hkept, hbroken, ⟨d, hd, hdecode.2 (by decide +kernel)⟩, d', hd', ?_⟩
  by_contra hsame
  have hmul := (hdecode'.1 (by simpa using hsame)).1
  exact absurd hmul (by decide +kernel)

end Decoder

end Rv32Sim
