/-!
# Decimal numerals of integers of any size

Taking the digits of a very long number off one by one divides the whole number for each digit.
Here a number is halved instead: it is divided by the power of ten in its middle, and so are both
parts, until each part is one digit. The zeros in front are dropped at the end. The result is the
usual numeral (`decimalDigits_eq`, `integer_eq`).
-/

namespace StackScript.Text

/-- The first `count` of 10, 100, 10000, …, each the square of the one before, the greatest
first. -/
def powersOfTen : (count : Nat) → List Nat
  | 0 => []
  | count + 1 =>
      match powersOfTen count with
      | [] => [10]
      | power :: smaller => power * power :: power :: smaller

/-- Divides a number by each of the powers in turn, and puts the digits in front of `rest`. -/
def digitsOnto (rest : List Char) : (powers : List Nat) → (n : Nat) → List Char
  | [], n => Nat.digitChar (n % 10) :: rest
  | power :: smaller, n => digitsOnto (digitsOnto rest smaller (n % power)) smaller (n / power)

/-- How often a block of one digit has to be doubled to hold the digits of `n`: three bits of a
number take at most one digit. -/
def doublings (n : Nat) : Nat := (n.log2 / 3).log2 + 1

/-- The digits of `n` without zeros in front. -/
def decimalDigits (n : Nat) : List Char :=
  match (digitsOnto [] (powersOfTen (doublings n)) n).dropWhile (· == '0') with
  | [] => ['0']
  | digits => digits

/-- The decimal numeral of an integer. -/
def integer (v : Int) : String :=
  match v with
  | .ofNat n => String.ofList (decimalDigits n)
  | .negSucc n => String.ofList ('-' :: decimalDigits (n + 1))

/-! ### The halves make up the numeral -/

/-- The product of `width` tens. -/
def tens : (width : Nat) → Nat
  | 0 => 1
  | width + 1 => 10 * tens width

/-- The lowest `width` digits of `n`, one after the other. -/
def lowDigits : (width n : Nat) → List Char
  | 0, _ => []
  | width + 1, n => lowDigits width (n / 10) ++ [Nat.digitChar (n % 10)]

theorem tens_add (a b : Nat) : tens (a + b) = tens a * tens b := by
  induction a with
  | zero => simp [tens]
  | succ a ih => rw [Nat.add_right_comm, tens, ih, tens, Nat.mul_assoc]

/-- A wide number is its high digits followed by its low ones. -/
theorem lowDigits_add (high low n : Nat) :
    lowDigits (high + low) n = lowDigits high (n / tens low) ++ lowDigits low n := by
  induction low generalizing n with
  | zero => simp [lowDigits, tens]
  | succ low ih =>
    rw [← Nat.add_assoc, lowDigits, ih, lowDigits, tens, ← Nat.div_div_eq_div_mul,
      List.append_assoc]

/-- The lowest digits depend on the remainder only. -/
theorem lowDigits_mod (width n : Nat) : lowDigits width (n % tens width) = lowDigits width n := by
  induction width generalizing n with
  | zero => rfl
  | succ width ih =>
    rw [lowDigits, lowDigits, tens, Nat.mod_mul_right_div_self, ih, Nat.mod_mul_right_mod]

theorem powersOfTen_succ (count : Nat) :
    powersOfTen (count + 1) = tens (1 <<< count) :: powersOfTen count := by
  induction count with
  | zero => rfl
  | succ count ih =>
    have double : 1 <<< (count + 1) = 1 <<< count + 1 <<< count := by
      simp only [Nat.one_shiftLeft, Nat.pow_succ]
      omega
    rw [powersOfTen, ih, double, tens_add]

theorem digitsOnto_eq (rest : List Char) (count n : Nat) :
    digitsOnto rest (powersOfTen count) n = lowDigits (1 <<< count) n ++ rest := by
  induction count generalizing rest n with
  | zero => rfl
  | succ count ih =>
    have double : 1 <<< (count + 1) = 1 <<< count + 1 <<< count := by
      simp only [Nat.one_shiftLeft, Nat.pow_succ]
      omega
    rw [powersOfTen_succ, digitsOnto, ih, ih, lowDigits_mod, double, lowDigits_add,
      List.append_assoc]

/-- Digits of zero are zeros. -/
theorem dropWhile_lowDigits_zero (width : Nat) :
    (lowDigits width 0).dropWhile (· == '0') = [] := by
  induction width with
  | zero => rfl
  | succ width ih =>
    rw [lowDigits, Nat.zero_div, List.dropWhile_append, ih]
    rfl

/-- Without the zeros in front, the digits are the usual numeral. -/
theorem dropWhile_lowDigits {width n : Nat} (pos : 0 < n) (fits : n < tens width) :
    (lowDigits width n).dropWhile (· == '0') = Nat.toDigits 10 n := by
  induction width generalizing n with
  | zero => simp [tens] at fits; omega
  | succ width ih =>
    rw [lowDigits, List.dropWhile_append]
    by_cases h : n < 10
    · have digit : ∀ d < 10, 0 < d → (Nat.digitChar d == '0') = false := by decide
      rw [Nat.div_eq_of_lt h, dropWhile_lowDigits_zero, Nat.mod_eq_of_lt h,
        Nat.toDigits_of_lt_base h]
      simp [digit n h pos]
    · rw [tens] at fits
      rw [ih (by omega) (by omega), Nat.toDigits_of_base_le (n := n) (by decide) (by omega)]
      simp [Nat.toDigits_ne_nil]

theorem tens_pos (width : Nat) : 0 < tens width := by
  induction width with
  | zero => decide
  | succ width ih => exact Nat.mul_pos (by decide) ih

theorem tens_mono {a b : Nat} (h : a ≤ b) : tens a ≤ tens b := by
  obtain ⟨c, rfl⟩ := Nat.exists_eq_add_of_le h
  rw [tens_add]
  exact Nat.le_mul_of_pos_right _ (tens_pos c)

/-- Three bits take at most one digit. -/
theorem shiftLeft_le_tens (width : Nat) : 1 <<< (3 * width) ≤ tens width := by
  induction width with
  | zero => decide
  | succ width ih =>
    rw [tens, Nat.mul_add, Nat.shiftLeft_add, Nat.shiftLeft_eq _ (3 * 1)]
    omega

theorem lt_tens_doublings (n : Nat) : n < tens (1 <<< doublings n) := by
  have bits : n < 1 <<< (3 * (n.log2 / 3 + 1)) := by
    rw [Nat.one_shiftLeft]
    exact Nat.lt_of_lt_of_le Nat.lt_log2_self (Nat.pow_le_pow_right (by decide) (by omega))
  have width : n.log2 / 3 + 1 ≤ 1 <<< doublings n := by
    rw [Nat.one_shiftLeft]
    exact Nat.lt_log2_self
  exact Nat.lt_of_lt_of_le bits (Nat.le_trans (shiftLeft_le_tens _) (tens_mono width))

theorem decimalDigits_eq (n : Nat) : decimalDigits n = Nat.toDigits 10 n := by
  rw [decimalDigits, digitsOnto_eq, List.append_nil]
  by_cases h : n = 0
  · rw [h, dropWhile_lowDigits_zero]
    rfl
  · rw [dropWhile_lowDigits (Nat.pos_of_ne_zero h) (lt_tens_doublings n)]
    split
    · rename_i h'
      exact absurd h' Nat.toDigits_ne_nil
    · rfl

theorem integer_eq (v : Int) : integer v = toString v := by
  cases v with
  | ofNat n => rw [integer, decimalDigits_eq]; rfl
  | negSucc n => rw [integer, decimalDigits_eq, String.ofList_cons]; rfl

end StackScript.Text
