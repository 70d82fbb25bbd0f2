import StackScript.Number.Positional

/-!
# Numerals

Two grammars of decimal numerals are in use. Bounded numbers (offsets, counts, budgets) take an
optional sign and decimal digits, leading zeros allowed. Integer literals have no bound and may
separate digits by `_`, though not before the first one.
-/

namespace StackScript.Text

/-- The number a digit stands for. -/
def digitValue (c : Char) : Nat := c.toNat - '0'.toNat

/-- The number a list of digits stands for. -/
def digitsValue (digits : List Char) : Nat := Number.ofDigits 10 (digits.reverse.map digitValue)

/-- One or more digits. -/
def digits? (chars : List Char) : Option Nat :=
  if chars.isEmpty || !chars.all Char.isDigit then none else some (digitsValue chars)

/-- A natural number below `bound`, with an optional `+`. -/
def natural? (bound : Nat) (text : String) : Option Nat :=
  let value := match text.toList with
    | '+' :: chars => digits? chars
    | chars => digits? chars
  value.filter (· < bound)

/-- An integer from `-bound` up to but not including `bound`, with an optional sign. -/
def signed? (bound : Nat) (text : String) : Option Int :=
  let value : Option Int := match text.toList with
    | '+' :: chars => (digits? chars).map Int.ofNat
    | '-' :: chars => (digits? chars).map fun n => -Int.ofNat n
    | chars => (digits? chars).map Int.ofNat
  value.filter fun v => -Int.ofNat bound ≤ v && v < Int.ofNat bound

/-- Digits with `_` anywhere but in front. -/
def separatedDigits? (chars : List Char) : Option Nat :=
  if chars.head? = some '_' then none
  else if chars.isEmpty || !chars.all (fun c => c.isDigit || c = '_') then none
  else some (digitsValue (chars.filter Char.isDigit))

/-- An integer literal of any size, with an optional sign. -/
def integer? (text : String) : Option Int :=
  match text.toList with
  | '+' :: chars => (separatedDigits? chars).map Int.ofNat
  | '-' :: chars => (separatedDigits? chars).map fun n => -Int.ofNat n
  | chars => (separatedDigits? chars).map Int.ofNat

/-- A text filled up on the left with `filler` to `width` characters. -/
def padLeft (width : Nat) (filler : Char) (text : String) : String :=
  String.ofList (List.replicate (width - text.length) filler) ++ text

/-- The decimal numeral of `n`. -/
def decimal (n : Nat) : String := toString n

/-- The decimal numeral of `n` with at least four digits. -/
def fourDigits (n : Nat) : String := padLeft 4 '0' (decimal n)

/-- The decimal numeral of `n`, flush right in four columns. -/
def fourColumns (n : Nat) : String := padLeft 4 ' ' (decimal n)

/-! ### Small laws -/

/-- Each further digit adds its value to ten times the number before it. -/
theorem digitsValue_eq_foldl (digits : List Char) :
    digitsValue digits = digits.foldl (fun n c => digitValue c + 10 * n) 0 := by
  rw [digitsValue, Number.ofDigits_eq_value, Number.value, List.foldr_map, List.foldr_reverse]

end StackScript.Text
