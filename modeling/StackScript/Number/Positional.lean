/-!
# Digits and the number they stand for

The number that digits in a base stand for, least significant digit first. `value` says which number
that is, one digit after the other. `ofDigits` finds it by joining neighbouring digits into digits
of the squared base, again and again: the numbers it multiplies are of equal size, which makes the
reading of very long numerals fast. The two agree (`ofDigits_eq_value`).
-/

namespace StackScript.Number

/-- The number that digits stand for, least significant digit first. -/
def value (base : Nat) (digits : List Nat) : Nat := digits.foldr (fun d n => d + base * n) 0

/-- Joins neighbouring digits, and puts the joined ones, the last one first, in front of `done`. -/
def joinPairsOnto (base : Nat) (done : List Nat) : (digits : List Nat) → List Nat
  | [] => done
  | [d] => d :: done
  | low :: high :: rest => joinPairsOnto base ((low + base * high) :: done) rest

/-- Neighbouring digits joined into digits of the squared base. -/
def joinPairs (base : Nat) (digits : List Nat) : List Nat := (joinPairsOnto base [] digits).reverse

/-- Joins neighbouring digits `rounds` times before it adds up what is left. -/
def joinRounds : (rounds base : Nat) → (digits : List Nat) → Nat
  | 0, base, digits => value base digits
  | rounds + 1, base, digits => joinRounds rounds (base * base) (joinPairs base digits)

/-- The number that digits stand for. With as many rounds as the length has bits, one digit is
left. -/
def ofDigits (base : Nat) (digits : List Nat) : Nat :=
  joinRounds (digits.length.log2 + 1) base digits

/-! ### Small laws -/

@[simp] theorem value_nil (base : Nat) : value base [] = 0 := rfl

@[simp] theorem value_cons (base d : Nat) (digits : List Nat) :
    value base (d :: digits) = d + base * value base digits := rfl

theorem joinPairsOnto_eq (base : Nat) (done digits : List Nat) :
    joinPairsOnto base done digits = joinPairsOnto base [] digits ++ done := by
  match digits with
  | [] => rfl
  | [d] => rfl
  | low :: high :: rest =>
    rw [joinPairsOnto, joinPairsOnto, joinPairsOnto_eq base (_ :: done) rest,
      joinPairsOnto_eq base [_] rest, List.append_assoc, List.singleton_append]
termination_by digits.length

theorem joinPairs_cons_cons (base low high : Nat) (rest : List Nat) :
    joinPairs base (low :: high :: rest) = (low + base * high) :: joinPairs base rest := by
  simp [joinPairs, joinPairsOnto, joinPairsOnto_eq base [low + base * high] rest]

/-- Joining digits keeps the number. -/
theorem value_joinPairs (base : Nat) (digits : List Nat) :
    value (base * base) (joinPairs base digits) = value base digits := by
  match digits with
  | [] => rfl
  | [d] => simp [joinPairs, joinPairsOnto]
  | low :: high :: rest =>
    rw [joinPairs_cons_cons, value_cons, value_joinPairs base rest, value_cons, value_cons,
      Nat.mul_add, Nat.mul_assoc, Nat.add_assoc]
termination_by digits.length

theorem joinRounds_eq_value (rounds base : Nat) (digits : List Nat) :
    joinRounds rounds base digits = value base digits := by
  induction rounds generalizing base digits with
  | zero => rfl
  | succ rounds ih => rw [joinRounds, ih, value_joinPairs]

theorem ofDigits_eq_value (base : Nat) (digits : List Nat) :
    ofDigits base digits = value base digits := joinRounds_eq_value _ _ _

end StackScript.Number
