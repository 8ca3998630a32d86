/-
  Rv32Sim.Proofs.Text.Numeral

  What a numeral denotes. A numeral of a base is one digit or more behind at most one plus
  sign, and its value has no limit. Reading compares with the limit after every digit and
  stops at the first value past it, which comes to comparing the value of the whole numeral:
  a value never gets smaller by the digits that follow (`readNumeral_eq_ok_iff`).
-/
import Mathlib.Algebra.Ring.Nat
import Mathlib.Data.Nat.Digits.Lemmas
import Mathlib.Tactic.Ring
import Rv32Sim.Text.Numeral
import Rv32Sim.Proofs.Text.Blank

namespace Rv32Sim.Text

/-! ## Digits -/

/-- The values of digits, one by one. -/
def HaveValues (base : Nat) (digits : List Char) (values : List Nat) : Prop :=
  List.Forall₂ (fun c d => digit? base c = some d) digits values

/-- What a text denotes in a base: it consists of digits, at least one, with or without a plus
    sign in front, and the number is theirs. -/
def Denotes (base : Nat) (text : List Char) (n : Nat) : Prop :=
  ∃ digits values, (text = digits ∨ text = '+' :: digits) ∧ digits ≠ [] ∧
    HaveValues base digits values ∧ n = Nat.ofDigits base values.reverse

theorem digit?_lt {base : Nat} {c : Char} {d : Nat} (h : digit? base c = some d) : d < base := by
  rw [digit?, Option.filter_eq_some_iff] at h
  simpa using h.2

theorem digit?_plus (base : Nat) : digit? base '+' = none := rfl

theorem digit?_at (base : Nat) : digit? base '@' = none := rfl

/-- Digits lie between the first ten and the last of the small letters. -/
theorem digit?_between {base : Nat} {c : Char} {d : Nat} (h : digit? base c = some d) :
    48 ≤ c.toNat ∧ c.toNat ≤ 102 := by
  rw [digit?, Option.filter_eq_some_iff] at h
  obtain ⟨hvalue, -⟩ := h
  have hle (a b : Char) : a ≤ b ↔ a.toNat ≤ b.toNat :=
    Char.le_def.trans UInt32.le_iff_toNat_le
  simp only [hle] at hvalue
  split at hvalue
  · rename_i hc
    exact ⟨hc.1, hc.2.trans (by decide)⟩
  · split at hvalue
    · rename_i hc
      exact ⟨le_trans (by decide) hc.1, hc.2⟩
    · split at hvalue
      · rename_i hc
        exact ⟨le_trans (by decide) hc.1, hc.2.trans (by decide)⟩
      · cases hvalue

/-- No digit is white space. -/
theorem not_isBlank_of_digit? {base : Nat} {c : Char} {d : Nat} (h : digit? base c = some d) :
    isBlank c = false := by
  have hc := digit?_between h
  simp [isBlank, blankRanges]
  omega

theorem HaveValues.not_isBlank {base : Nat} {digits : List Char} {values : List Nat}
    (h : HaveValues base digits values) : ∀ c ∈ digits, isBlank c = false := by
  induction h with
  | nil => intro c hc; cases hc
  | cons hdigit _ ih =>
    exact List.forall_mem_cons.2 ⟨not_isBlank_of_digit? hdigit, ih⟩

theorem HaveValues.forall_lt {base : Nat} {digits : List Char} {values : List Nat}
    (h : HaveValues base digits values) : ∀ d ∈ values, d < base := by
  induction h with
  | nil => intro d hd; cases hd
  | cons hdigit _ ih => exact List.forall_mem_cons.2 ⟨digit?_lt hdigit, ih⟩

/-! ## Numerals -/

/-- A numeral contains no white space. -/
theorem Denotes.not_isBlank {base : Nat} {text : List Char} {n : Nat} (h : Denotes base text n) :
    ∀ c ∈ text, isBlank c = false := by
  obtain ⟨digits, values, rfl | rfl, -, hvalues, -⟩ := h
  · exact hvalues.not_isBlank
  · exact List.forall_mem_cons.2 ⟨by decide, hvalues.not_isBlank⟩

theorem not_denotes_at (base : Nat) (text : List Char) (n : Nat) :
    ¬Denotes base ('@' :: text) n := by
  rintro ⟨digits, values, h | h, -, hvalues, -⟩
  · subst h
    cases hvalues with
    | cons hdigit _ =>
      rw [digit?_at] at hdigit
      cases hdigit
  · cases h

/-- The length of a numeral bounds its value. -/
theorem Denotes.lt_pow_length {base : Nat} {text : List Char} {n : Nat} (hbase : 1 < base)
    (h : Denotes base text n) : n < base ^ text.length := by
  obtain ⟨digits, values, htext, -, hvalues, rfl⟩ := h
  have hlen : values.reverse.length = digits.length := by
    rw [List.length_reverse, hvalues.length_eq]
  have hle : digits.length ≤ text.length := by
    rcases htext with rfl | rfl
    · exact Nat.le_refl _
    · exact Nat.le_succ _
  calc Nat.ofDigits base values.reverse
      < base ^ values.reverse.length :=
        Nat.ofDigits_lt_base_pow_length hbase
          fun d hd => hvalues.forall_lt d (List.mem_reverse.1 hd)
    _ ≤ base ^ text.length := Nat.pow_le_pow_right (by omega) (by omega)

/-! ## Reading -/

/-- The value of digits that follow on `acc`, from the left. -/
theorem ofDigits_reverse_cons (base acc d : Nat) (values : List Nat) :
    acc * base ^ (d :: values).length + Nat.ofDigits base (d :: values).reverse =
      (acc * base + d) * base ^ values.length + Nat.ofDigits base values.reverse := by
  rw [List.reverse_cons, Nat.ofDigits_append, Nat.ofDigits_singleton, List.length_reverse,
    List.length_cons, Nat.pow_succ]
  ring

/-- Digits are read without an error exactly if the value of all of them is below the
    limit. -/
theorem readDigits_eq_ok_iff {base limit : Nat} (hbase : 0 < base) {cs : List Char}
    {acc n : Nat} (hacc : acc < limit) :
    readDigits base limit acc cs = .ok n ↔
      ∃ values, HaveValues base cs values ∧
        n = acc * base ^ values.length + Nat.ofDigits base values.reverse ∧ n < limit := by
  -- for every value read so far, which stays below the limit from digit to digit
  induction cs generalizing acc with
  | nil =>
    rw [readDigits]
    constructor
    · intro h
      cases h
      exact ⟨[], .nil, by simp, hacc⟩
    · rintro ⟨values, hvalues, rfl, -⟩
      cases hvalues
      simp
  | cons c cs ih =>
    rw [readDigits]
    cases hdigit : digit? base c with
    | none =>
      refine iff_of_false (fun h => by cases h) ?_
      rintro ⟨values, hvalues, -⟩
      cases hvalues with
      | cons hc _ =>
        rw [hdigit] at hc
        cases hc
    | some d =>
      have hsplit : (∃ values, HaveValues base (c :: cs) values ∧
            n = acc * base ^ values.length + Nat.ofDigits base values.reverse ∧ n < limit) ↔
          ∃ values, HaveValues base cs values ∧
            n = (acc * base + d) * base ^ values.length + Nat.ofDigits base values.reverse ∧
            n < limit := by
        constructor
        · rintro ⟨values, hvalues, hn, hlt⟩
          cases hvalues with
          | cons hc hcs =>
            rw [hdigit] at hc
            cases hc
            exact ⟨_, hcs, hn.trans (ofDigits_reverse_cons ..), hlt⟩
        · rintro ⟨values, hvalues, hn, hlt⟩
          exact ⟨d :: values, .cons hdigit hvalues,
            hn.trans (ofDigits_reverse_cons ..).symm, hlt⟩
      rw [hsplit]
      show (if acc * base + d < limit then _ else _) = _ ↔ _
      by_cases hlimit : acc * base + d < limit
      · rw [if_pos hlimit, ih hlimit]
      · rw [if_neg hlimit]
        refine iff_of_false (fun h => by cases h) ?_
        -- the digits that follow only add to the value
        rintro ⟨values, -, hn, hlt⟩
        have hpos : 0 < base ^ values.length := Nat.pow_pos hbase
        have hle := Nat.le_mul_of_pos_right (acc * base + d) hpos
        omega

theorem denotes_plus_iff {base : Nat} {cs : List Char} {n : Nat} :
    Denotes base ('+' :: cs) n ↔
      cs ≠ [] ∧ ∃ values, HaveValues base cs values ∧ n = Nat.ofDigits base values.reverse := by
  constructor
  · rintro ⟨digits, values, h | h, hne, hvalues, hn⟩
    · subst h
      cases hvalues with
      | cons hdigit _ =>
        rw [digit?_plus] at hdigit
        cases hdigit
    · cases h
      exact ⟨hne, values, hvalues, hn⟩
  · rintro ⟨hne, values, hvalues, hn⟩
    exact ⟨cs, values, .inr rfl, hne, hvalues, hn⟩

theorem denotes_cons_iff {base : Nat} {c : Char} {cs : List Char} {n : Nat} (hc : c ≠ '+') :
    Denotes base (c :: cs) n ↔
      ∃ values, HaveValues base (c :: cs) values ∧ n = Nat.ofDigits base values.reverse := by
  constructor
  · rintro ⟨digits, values, h | h, -, hvalues, hn⟩
    · exact ⟨values, h ▸ hvalues, hn⟩
    · cases h
      exact absurd rfl hc
  · rintro ⟨values, hvalues, hn⟩
    exact ⟨c :: cs, values, .inl rfl, List.cons_ne_nil c cs, hvalues, hn⟩

/-- Without a plus sign in front it is the digits that are read. -/
theorem readNumeral_of_ne (base limit : Nat) {c : Char} (cs : List Char) (hc : c ≠ '+') :
    readNumeral base limit (c :: cs) = readDigits base limit 0 (c :: cs) := by
  rw [readNumeral]
  · exact List.cons_ne_nil c cs
  · intro h
    exact hc (List.cons.inj h).1
  · intro rest h
    exact hc (List.cons.inj h).1

/-- **Reading a numeral** gives what the text denotes, if this is below the limit, and else
    an error. -/
theorem readNumeral_eq_ok_iff {base limit : Nat} (hbase : 0 < base) (hlimit : 0 < limit)
    {text : List Char} {n : Nat} :
    readNumeral base limit text = .ok n ↔ Denotes base text n ∧ n < limit := by
  have hread (cs : List Char) : readDigits base limit 0 cs = .ok n ↔
      (∃ values, HaveValues base cs values ∧ n = Nat.ofDigits base values.reverse) ∧
        n < limit := by
    rw [readDigits_eq_ok_iff hbase hlimit]
    simp only [Nat.zero_mul, Nat.zero_add]
    constructor
    · rintro ⟨values, hvalues, hn, hlt⟩
      exact ⟨⟨values, hvalues, hn⟩, hlt⟩
    · rintro ⟨⟨values, hvalues, hn⟩, hlt⟩
      exact ⟨values, hvalues, hn, hlt⟩
  cases text with
  | nil =>
    refine iff_of_false (fun h => by cases h) ?_
    rintro ⟨⟨digits, values, h | h, hne, -⟩, -⟩
    · exact hne h.symm
    · cases h
  | cons c cs =>
    by_cases hc : c = '+'
    · subst hc
      rw [denotes_plus_iff]
      cases cs with
      | nil =>
        refine iff_of_false (fun h => by cases h) ?_
        rintro ⟨⟨hne, -⟩, -⟩
        exact hne rfl
      | cons c cs =>
        show readDigits base limit 0 (c :: cs) = .ok n ↔ _
        rw [hread]
        simp only [ne_eq, reduceCtorEq, not_false_eq_true, true_and]
    · rw [readNumeral_of_ne base limit cs hc, hread, denotes_cons_iff hc]

/-- With the limit of a width, what is read is what the text denotes at this width. -/
theorem exists_readNumeral_iff {base limit n : Nat} (hbase : 0 < base) (hlimit : limit = 2 ^ n)
    {text : List Char} {b : BitVec n} :
    (∃ m, readNumeral base limit text = .ok m ∧ BitVec.ofNat n m = b) ↔
      Denotes base text b.toNat := by
  have hread (m : Nat) : readNumeral base limit text = .ok m ↔ Denotes base text m ∧ m < 2 ^ n := by
    rw [readNumeral_eq_ok_iff hbase (by rw [hlimit]; exact Nat.two_pow_pos n), hlimit]
  constructor
  · rintro ⟨m, hm, rfl⟩
    obtain ⟨hdenotes, hlt⟩ := (hread m).1 hm
    rwa [BitVec.toNat_ofNat, Nat.mod_eq_of_lt hlt]
  · intro h
    refine ⟨b.toNat, (hread b.toNat).2 ⟨h, b.isLt⟩, ?_⟩
    rw [BitVec.ofNat_toNat, BitVec.setWidth_eq]

end Rv32Sim.Text
