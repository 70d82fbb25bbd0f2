import StackScript.Assembly.Error

/-!
# Tokens of a line

Commas, spaces, tabs and carriage returns separate tokens, and `#` begins a comment. Between double
quotes they are ordinary characters. A quote may stand anywhere in a token; the quotes are part of
it. A token knows the column it starts at, counted in bytes from 1.
-/

namespace StackScript.Assembly

/-- A token and the column of its first character. -/
structure Token where
  /-- The characters. -/
  text : String
  /-- The column. -/
  column : Nat
  deriving DecidableEq, Repr

/-- A character that separates tokens. -/
def isSeparator (c : Char) : Bool := c == ',' || c == ' ' || c == '\t' || c == '\r'

/-- Where the scan of a line stands. -/
structure Scan where
  /-- The tokens behind, the last one first. -/
  done : List Token := []
  /-- The token begun: its column and its characters so far, the last one first. -/
  begun : Option (Nat × List Char) := none
  /-- Whether the scan is between double quotes. -/
  quoted : Bool := false

namespace Scan

/-- Adds a character to the token begun, or begins one. -/
def extend (scan : Scan) (column : Nat) (c : Char) : Scan :=
  match scan.begun with
  | some (start, text) => { scan with begun := some (start, c :: text) }
  | none => { scan with begun := some (column, [c]) }

/-- Ends the token begun. -/
def close (scan : Scan) : Scan :=
  match scan.begun with
  | some (start, text) =>
      { scan with done := ⟨String.ofList text.reverse, start⟩ :: scan.done, begun := none }
  | none => scan

/-- The tokens found. -/
def tokens (scan : Scan) : List Token := scan.close.done.reverse

/-- The column of the token begun. -/
def column (scan : Scan) : Nat :=
  match scan.begun with
  | some (start, _) => start
  | none => 0

/-- Scans the rest of a line, the next character at `column`. -/
def run (scan : Scan) (column : Nat) : List Char → Except Nat (List Token)
  | [] => if scan.quoted then .error scan.column else .ok scan.tokens
  | c :: rest =>
      if c = '#' ∧ scan.quoted = false then .ok scan.tokens
      else if c = '"' then
        run { scan.extend column c with quoted := !scan.quoted } (column + c.utf8Size) rest
      else if isSeparator c ∧ scan.quoted = false then run scan.close (column + c.utf8Size) rest
      else run (scan.extend column c) (column + c.utf8Size) rest

end Scan

/-- The tokens of a line, or the column of a token whose quote is not closed. -/
def tokenize (line : List Char) : Except Nat (List Token) := Scan.run {} 1 line

/-- The name a token defines as a label: what stands before a colon at its end. A token that starts
with a quote defines none. -/
def Token.label? (token : Token) : Option String :=
  match token.text.toList with
  | '"' :: _ => none
  | chars =>
      if chars.getLast? = some ':' ∧ 1 < chars.length then some (String.ofList chars.dropLast)
      else none

end StackScript.Assembly
