/-
  Rv32Sim.Text.Numeral

  Reading unsigned numbers in a base up to 16. A plus sign may stand in front of
  the digits. Digits are read from the left, and the first thing wrong decides
  the error: a character that is no digit, or a value past the limit.
-/
import Rv32Sim.Word

namespace Rv32Sim

/-- Why a text is no number. -/
inductive NumeralError where
  | empty
  | invalidDigit
  | tooLarge
  deriving DecidableEq, Repr

/-- The wording of a number error. -/
def NumeralError.message : NumeralError → String
  | empty => "cannot parse integer from empty string"
  | invalidDigit => "invalid digit found in string"
  | tooLarge => "number too large to fit in target type"

namespace Text

/-- The value of a digit, letters counting on from ten in either case. -/
def digit? (base : Nat) (c : Char) : Option Nat :=
  let value :=
    if '0' ≤ c ∧ c ≤ '9' then some (c.toNat - '0'.toNat)
    else if 'a' ≤ c ∧ c ≤ 'f' then some (c.toNat - 'a'.toNat + 10)
    else if 'A' ≤ c ∧ c ≤ 'F' then some (c.toNat - 'A'.toNat + 10)
    else none
  value.filter (· < base)

/-- The number below `limit` that digits denote when they follow on the value `acc`. -/
def readDigits (base limit : Nat) (acc : Nat) : List Char → Except NumeralError Nat
  | [] => .ok acc
  | c :: cs =>
    match digit? base c with
    | none => .error .invalidDigit
    | some d =>
      if acc * base + d < limit then readDigits base limit (acc * base + d) cs
      else .error .tooLarge

/-- The number below `limit` that a text denotes in a base. -/
def readNumeral (base limit : Nat) : List Char → Except NumeralError Nat
  | [] => .error .empty
  | ['+'] => .error .invalidDigit
  | '+' :: cs => readDigits base limit 0 cs
  | cs => readDigits base limit 0 cs

end Text

/-- The word that a text denotes in decimal or, after `0x` or `0X`, in hexadecimal.
    Underscores between the digits do not count. -/
def Word.ofNumeral (text : String) : Except NumeralError Word :=
  let read (base : Nat) (cs : List Char) : Except NumeralError Word :=
    (Text.readNumeral base 0x100000000 (cs.filter (· != '_'))).map (BitVec.ofNat 32)
  match text.toList with
  | '0' :: 'x' :: cs => read 16 cs
  | '0' :: 'X' :: cs => read 16 cs
  | cs => read 10 cs

/-- The count that a text denotes in decimal. -/
def Count.ofNumeral (text : String) : Except NumeralError Count :=
  (Text.readNumeral 10 0x10000000000000000 text.toList).map (BitVec.ofNat 64)

end Rv32Sim
