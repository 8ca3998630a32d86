/-
  Rv32Sim.Image

  The text form of a program image. A line holds an address after `@`, or one
  word of eight hexadecimal digits, or bytes of two digits each; blank lines are
  skipped. Words and bytes go to the current address, which moves on behind them.

      @00000000          the current address
      00000513           one word
      13 05 00 00        the same word, byte by byte
-/
import Rv32Sim.Memory.Rom
import Rv32Sim.Text.Blank
import Rv32Sim.Text.Field
import Rv32Sim.Text.Numeral

namespace Rv32Sim

/-! ## Errors -/

/-- Why a file cannot be read. -/
inductive ReadError where
  | notFound
  | isFolder
  | notFolder
  | nameTooLong
  | notText
  | other (reason : String)
  deriving DecidableEq, Repr

/-- The wording of a read error. -/
def ReadError.message : ReadError → String
  | notFound => "No such file or directory (os error 2)"
  | isFolder => "Is a directory (os error 21)"
  | notFolder => "Not a directory (os error 20)"
  | nameTooLong => "File name too long (os error 36)"
  | notText => "stream did not contain valid UTF-8"
  | other reason => reason

/-- What is wrong with a line. -/
inductive LineError where
  | badAddress (text : String)
  | badWord (text : String)
  deriving DecidableEq, Repr

/-- Why there is no image. Lines are numbered from 1, blank ones included. -/
inductive ImageError where
  | unreadable (e : ReadError)
  | badLine (number : Nat) (e : LineError)
  | empty
  deriving DecidableEq, Repr

/-- The wording of an image error. -/
def ImageError.message : ImageError → String
  | unreadable e => "cannot read ROM image: " ++ e.message
  | badLine number (.badAddress text) => s!"line {number}: invalid address directive `{text}`"
  | badLine number (.badWord text) => s!"line {number}: invalid hex data `{text}`"
  | empty => "ROM image contains no instructions"

namespace Image

/-! ## Lines -/

/-- What a line says. -/
inductive Item where
  | blank
  | address (a : Word)
  | word (w : Word)
  | bytes (bs : List Byte)
  deriving DecidableEq, Repr

/-- The number of `n` bits that a token denotes in hexadecimal. -/
def hex? (n : Nat) (token : List Char) : Option (BitVec n) :=
  match Text.readNumeral 16 (1 <<< n) token with
  | .ok value => some (BitVec.ofNat n value)
  | .error _ => none

/-- The byte of a two-digit token. -/
def readByte (token : List Char) : Except LineError Byte :=
  match hex? 8 token with
  | some b => .ok b
  | none => .error (.badWord (String.ofList token))

/-- The word of an eight-digit token. -/
def readWord (token : List Char) : Except LineError Word :=
  match hex? 32 token with
  | some w => .ok w
  | none => .error (.badWord (String.ofList token))

/-- What a line without white space at its ends says. -/
def Item.ofTrimmed (line : List Char) : Except LineError Item :=
  match line with
  | [] => .ok .blank
  | '@' :: rest =>
    match hex? 32 (Text.trim rest) with
    | some a => .ok (.address a)
    | none => .error (.badAddress (String.ofList line))
  | _ =>
    match Text.tokens line with
    | [token] =>
      if Text.utf8Length token = 8 then (readWord token).map .word
      else if Text.utf8Length token = 2 then (readByte token).map fun b => .bytes [b]
      else .error (.badWord (String.ofList line))
    | tokens =>
      if tokens.all (fun token => Text.utf8Length token == 2) then
        (tokens.mapM readByte).map .bytes
      else .error (.badWord (String.ofList line))

/-- What a line says. -/
def Item.ofLine (line : List Char) : Except LineError Item :=
  Item.ofTrimmed (Text.trim line)

/-- What the lines of a text say, the first of them having number `n`, or the first
    line that says nothing. -/
def readItems (n : Nat) : List (List Char) → Except ImageError (List Item)
  | [] => .ok []
  | line :: lines =>
    match Item.ofLine line with
    | .error e => .error (.badLine n e)
    | .ok item => (readItems (n + 1) lines).map (item :: ·)

/-! ## Placement -/

/-- An image in the making, with the current address. -/
structure Cursor where
  rom : Rom
  address : Word
  deriving DecidableEq

namespace Cursor

/-- The beginning: nothing placed, and the current address zero. -/
def start : Cursor := ⟨.empty, 0⟩

/-- Place one byte and move on. -/
def placeByte (c : Cursor) (b : Byte) : Cursor :=
  ⟨c.rom.putByte c.address b, c.address + 1⟩

/-- Do what a line says. A word goes to the memory word of the current address. -/
def place (c : Cursor) : Item → Cursor
  | .blank => c
  | .address a => { c with address := a }
  | .word w => ⟨c.rom.insert c.address w, c.address + 4⟩
  | .bytes bs => bs.foldl placeByte c

end Cursor

/-- The image that lines describe. -/
def ofItems (items : List Item) : Rom :=
  (items.foldl Cursor.place .start).rom

/-- The image that a text describes; an image without content is an error. -/
def ofText (text : String) : Except ImageError Rom :=
  match readItems 1 (Text.lines text.toList) with
  | .error e => .error e
  | .ok items => if (ofItems items).isEmpty then .error .empty else .ok (ofItems items)

/-- The image in the content of a file. -/
def ofBytes (content : ByteArray) : Except ImageError Rom :=
  match String.fromUTF8? content with
  | some text => ofText text
  | none => .error (.unreadable .notText)

end Image

end Rv32Sim
