/-
  Rv32Sim.Proofs.Text.Field

  How the fields of a text are told apart. Fields with fixed widths are cut off from the front
  one by one (`join_append_inj`), and a number at the end of a text is cut off from the back:
  it goes as far as there are digits (`append_repr_inj`). A word has a hexadecimal form of one
  width, which shows all its bits (`Word.hex_inj`).
-/
import Mathlib.Algebra.Ring.Nat
import Mathlib.Data.List.Basic
import Std.Data.String.ToNat
import Rv32Sim.Text.Field

namespace Rv32Sim

namespace Text

/-! ## Fields of fixed width -/

/-- Texts of the same widths, one behind the other, are told apart from what follows. -/
theorem join_append_inj {xs ys : List String} {s t : String}
    (hwidth : xs.map String.length = ys.map String.length)
    (h : String.join xs ++ s = String.join ys ++ t) : xs = ys ∧ s = t := by
  induction xs generalizing ys with
  | nil =>
    obtain rfl := List.map_eq_nil_iff.1 hwidth.symm
    exact ⟨rfl, by simpa using h⟩
  | cons x xs ih =>
    obtain ⟨y, ys, rfl, hy, hys⟩ := List.map_eq_cons_iff.1 hwidth.symm
    rw [String.join_cons, String.join_cons, String.append_assoc, String.append_assoc] at h
    have hchars : x.toList ++ (String.join xs ++ s).toList =
        y.toList ++ (String.join ys ++ t).toList := by
      rw [← String.toList_append, h, String.toList_append]
    have hlen : x.toList.length = y.toList.length := by
      rw [String.length_toList, String.length_toList, hy]
    -- the widths are equal, so the first fields end at the same place
    obtain ⟨hfirst, hmore⟩ := List.append_inj hchars hlen
    obtain ⟨rfl, rfl⟩ := ih hys.symm (String.toList_injective hmore)
    exact ⟨by rw [String.toList_injective hfirst], rfl⟩

/-- Texts of the same widths are told apart. -/
theorem join_inj {xs ys : List String} (hwidth : xs.map String.length = ys.map String.length)
    (h : String.join xs = String.join ys) : xs = ys :=
  (join_append_inj (s := "") (t := "") hwidth (by rw [h])).1

theorem length_join (xs : List String) : (String.join xs).length = (xs.map String.length).sum := by
  induction xs with
  | nil => rfl
  | cons x xs ih => rw [String.join_cons, String.length_append, ih, List.map_cons, List.sum_cons]

/-! ## Numbers at the end of a text -/

/-- Behind a character that is no digit, the digits at the end of a text are told apart. -/
theorem append_digits_inj {xs ys ds es : List Char} {c : Char} (hc : c.isDigit = false)
    (hds : ∀ d ∈ ds, d.isDigit = true) (hes : ∀ e ∈ es, e.isDigit = true)
    (h : xs ++ c :: ds = ys ++ c :: es) : xs = ys ∧ ds = es := by
  -- from the back, the digits are what comes before the first other character
  have hback (zs : List Char) {fs : List Char} (hfs : ∀ f ∈ fs, f.isDigit = true) :
      (zs ++ c :: fs).reverse.takeWhile Char.isDigit = fs.reverse := by
    rw [List.reverse_append, List.reverse_cons, List.append_assoc,
      List.takeWhile_append_of_pos fun f hf => hfs f (List.mem_reverse.1 hf)]
    simp [hc]
  have hdigits : ds = es := by
    have hreverse : ds.reverse = es.reverse := by rw [← hback xs hds, h, hback ys hes]
    exact List.reverse_injective hreverse
  subst hdigits
  exact ⟨List.append_cancel_right h, rfl⟩

theorem repr_inj_of_append {xs ys : List Char} {m n : Nat} {c : Char} (hc : c.isDigit = false)
    (h : xs ++ c :: m.repr.toList = ys ++ c :: n.repr.toList) : xs = ys ∧ m = n := by
  have hdigits (k : Nat) : ∀ d ∈ k.repr.toList, d.isDigit = true := by
    rw [Nat.toList_repr]
    exact fun d hd => Nat.isDigit_of_mem_toDigits (by decide) (by decide) hd
  obtain ⟨hfront, hnumber⟩ := append_digits_inj hc (hdigits m) (hdigits n) h
  exact ⟨hfront, Nat.repr_inj.1 (String.toList_injective hnumber)⟩

/-! ## Hexadecimal digits -/

theorem length_hexDigits (width n : Nat) : (hexDigits width n).length = width := by
  rw [hexDigits, List.length_reverse, List.length_map, List.length_range]

theorem digitChar_inj {m n : Nat} (hm : m < 16) (hn : n < 16)
    (h : m.digitChar = n.digitChar) : m = n := by
  have hall : ∀ m < 16, ∀ n < 16, m.digitChar = n.digitChar → m = n := by decide
  exact hall m hm n hn h

/-- The digits of a number show its lowest bits, four bits a digit. -/
theorem testBit_of_hexDigits {width m n : Nat} (h : hexDigits width m = hexDigits width n)
    {i : Nat} (hi : i < 4 * width) : m.testBit i = n.testBit i := by
  rw [hexDigits, hexDigits] at h
  have hdigits := List.map_inj_left.1 (List.reverse_injective h) (i / 4)
    (List.mem_range.2 (by omega))
  have hdigit := digitChar_inj (Nat.mod_lt _ (by decide)) (Nat.mod_lt _ (by decide)) hdigits
  -- bit `i` is bit `i % 4` of the digit at place `i / 4`
  have hslice (k : Nat) : k.testBit i = (k >>> (4 * (i / 4)) % 16).testBit (i % 4) := by
    rw [show 16 = 2 ^ 4 from rfl, Nat.testBit_mod_two_pow, Nat.testBit_shiftRight,
      show 4 * (i / 4) + i % 4 = i by omega]
    simp [Nat.mod_lt]
  rw [hslice m, hdigit, ← hslice n]

end Text

namespace Word

theorem length_hex (w : Word) : w.hex.length = 10 := by
  have hdigits : w.digits.length = 8 := by
    rw [digits, String.length_ofList, Text.length_hexDigits]
  rw [hex, String.length_append, hdigits]
  rfl

/-- The hexadecimal form of a word shows the word. -/
theorem hex_inj {v w : Word} (h : v.hex = w.hex) : v = w := by
  have hdigits : Text.hexDigits 8 v.toNat = Text.hexDigits 8 w.toNat := by
    have hchars := congrArg String.toList h
    rw [hex, hex, String.toList_append, String.toList_append] at hchars
    have htail := List.append_cancel_left hchars
    rwa [digits, digits, String.toList_ofList, String.toList_ofList] at htail
  apply BitVec.eq_of_getLsbD_eq
  intro i hi
  exact Text.testBit_of_hexDigits hdigits hi

end Word

end Rv32Sim
