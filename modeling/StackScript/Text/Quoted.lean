import StackScript.Text.Printable

/-!
# Quoted text

Messages that name a text a script or a user supplied show it in quotes, with every character that
could mislead a reader escaped. The delimiter is escaped, the other kind of quote is not.
-/

namespace StackScript.Text

/-- The hexadecimal digits of `n`, lower case, without leading zeros. -/
def hexNumeral (n : Nat) : String := String.ofList (Nat.toDigits 16 n)

/-- A character as quoted text shows it between `delimiter`s. -/
def escapeChar (delimiter c : Char) : String :=
  if c = '\x00' then "\\0"
  else if c = '\t' then "\\t"
  else if c = '\n' then "\\n"
  else if c = '\r' then "\\r"
  else if c = '\\' then "\\\\"
  else if c = delimiter then "\\" ++ c.toString
  else if isPrintable c then c.toString
  else "\\u\x7b" ++ hexNumeral c.toNat ++ "\x7d"

/-- A text in double quotes. -/
def quoted (text : String) : String :=
  "\"" ++ String.join (text.toList.map (escapeChar '"')) ++ "\""

/-- A character in single quotes. -/
def quotedChar (c : Char) : String := "'" ++ escapeChar '\'' c ++ "'"

end StackScript.Text
