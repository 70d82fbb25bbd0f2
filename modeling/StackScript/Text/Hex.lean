import StackScript.Text.Quoted
import StackScript.Text.Utf8

/-!
# Hexadecimal byte strings

Bytes are written as two lower case digits each, high half first. Reading takes either case and
reports one cause when it fails: first an odd number of digits, then (where the length is fixed)
a wrong length, then the first byte that is no digit. Positions and lengths count the bytes of the
text, so a character outside ASCII is reported by its first byte.
-/

namespace StackScript.Text

/-- Why a text is no hexadecimal byte string. -/
inductive HexError where
  /-- The number of digits is odd. -/
  | oddLength
  /-- The number of digits is not the one asked for. -/
  | wrongLength
  /-- The byte at `position` is no digit. -/
  | notDigit (byte : UInt8) (position : Nat)
  deriving DecidableEq, Repr

/-- The wording of a cause. -/
def HexError.message : HexError → String
  | .oddLength => "Odd number of digits"
  | .wrongLength => "Invalid string length"
  | .notDigit byte position =>
      s!"Invalid character {quotedChar (Char.ofNat byte.toNat)} at position {position}"

namespace Hex

/-- The digit that stands for a number below sixteen. -/
def digit (n : Nat) : Char := Nat.digitChar n

/-- The two digits of a byte. -/
def pair (b : UInt8) : List Char := [digit (b.toNat / 16), digit (b.toNat % 16)]

/-- The digits of a byte string. -/
def encode (bytes : Bytes) : String := String.ofList (bytes.flatMap pair)

/-- The digits of a byte string behind the marker `0x`. -/
def encodeMarked (bytes : Bytes) : String := "0x" ++ encode bytes

/-- The number a digit byte stands for, in either case. -/
def digitValue? (b : UInt8) : Option Nat :=
  if 0x30 ≤ b ∧ b ≤ 0x39 then some (b.toNat - 0x30)
  else if 0x61 ≤ b ∧ b ≤ 0x66 then some (b.toNat - 0x61 + 10)
  else if 0x41 ≤ b ∧ b ≤ 0x46 then some (b.toNat - 0x41 + 10)
  else none

/-- Reads digit bytes two at a time, the first at `position`, onto the reverse of `done`. -/
def decodePairs (position : Nat) (done : Bytes) : Bytes → Except HexError Bytes
  | high :: low :: rest =>
      match digitValue? high, digitValue? low with
      | some h, some l => decodePairs (position + 2) (UInt8.ofNat (16 * h + l) :: done) rest
      | none, _ => .error (.notDigit high position)
      | some _, none => .error (.notDigit low (position + 1))
  | _ => .ok done.reverse

/-- Reads a byte string of any length. -/
def decode (text : String) : Except HexError Bytes :=
  let digits := Utf8.ofString text
  if digits.length % 2 ≠ 0 then .error .oddLength else decodePairs 0 [] digits

/-- Reads a byte string of `count` bytes. -/
def decodeExact (count : Nat) (text : String) : Except HexError Bytes :=
  let digits := Utf8.ofString text
  if digits.length % 2 ≠ 0 then .error .oddLength
  else if digits.length / 2 ≠ count then .error .wrongLength
  else decodePairs 0 [] digits

end Hex

/-- A text without the marker `0x` in front, if it has one. -/
def dropMarker (text : String) : String :=
  match text.toList with
  | '0' :: 'x' :: rest => String.ofList rest
  | _ => text

/-- Whether a text starts with the marker `0x`. -/
def hasMarker (text : String) : Bool :=
  match text.toList with
  | '0' :: 'x' :: _ => true
  | _ => false

end StackScript.Text
