/-
  Rv32Sim.Text.Field

  Fields of a line of text: hexadecimal numbers with a fixed or a least number
  of digits, texts aligned in a column, and characters between quotes as a log shows
  them, by their code point where they leave no mark on paper.
-/
import Rv32Sim.Word

namespace Rv32Sim

namespace Text

/-! ## Numbers and columns -/

/-- The lowest `width` hexadecimal digits of a number, most significant first. -/
def hexDigits (width n : Nat) : List Char :=
  ((List.range width).map fun i => Nat.digitChar (n >>> (4 * i) % 16)).reverse

/-- A number in hexadecimal, filled up with zeros to at least `width` digits. -/
def hexAtLeast (width n : Nat) : String :=
  "0x" ++ String.ofList ((Nat.toDigits 16 n).leftpad width '0')

/-- Fill a text up with blanks on the right. -/
def alignLeft (width : Nat) (text : String) : String :=
  String.ofList (text.toList.rightpad width ' ')

/-- Fill a text up with blanks on the left. -/
def alignRight (width : Nat) (text : String) : String :=
  String.ofList (text.toList.leftpad width ' ')

/-! ## Characters -/

/-- Whether a character below code point 256 has a visible form or is the blank.
    The controls, the no-break space and the soft hyphen have none. -/
def isVisible (c : Char) : Bool :=
  let n := c.toNat
  !(n < 0x20 || (0x7F ≤ n && n ≤ 0xA0) || n == 0xAD)

/-- A character between quotes. A double quote needs no escape there. -/
def charLiteral (c : Char) : String :=
  let body :=
    match c with
    | '\x00' => "\\0"
    | '\t' => "\\t"
    | '\r' => "\\r"
    | '\n' => "\\n"
    | '\\' => "\\\\"
    | '\'' => "\\'"
    | c =>
      if isVisible c then c.toString
      else "\\u\x7b" ++ String.ofList (Nat.toDigits 16 c.toNat) ++ "\x7d"
  "'" ++ body ++ "'"

end Text

/-! ## Words -/

/-- The eight hexadecimal digits of a word. -/
def Word.digits (w : Word) : String := String.ofList (Text.hexDigits 8 w.toNat)

/-- A word as `0x` and eight hexadecimal digits. -/
def Word.hex (w : Word) : String := "0x" ++ w.digits

end Rv32Sim
