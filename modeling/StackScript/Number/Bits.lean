/-!
# Bits of integers

An integer is taken as an endless row of bits: a natural number goes on with zeros, a negative one,
`-n - 1`, is the complement of `n` and goes on with ones. Every operation on two such rows comes
down to one on natural numbers.
-/

namespace StackScript.Number

/-- The bits of `m` that are not in `n`. -/
def bitsWithout (m n : Nat) : Nat := m ^^^ (m &&& n)

/-- Bits set in both. -/
def bitAnd : Int → Int → Int
  | .ofNat m, .ofNat n => .ofNat (m &&& n)
  | .ofNat m, .negSucc n => .ofNat (bitsWithout m n)
  | .negSucc m, .ofNat n => .ofNat (bitsWithout n m)
  | .negSucc m, .negSucc n => .negSucc (m ||| n)

/-- Bits set in one of the two or in both. -/
def bitOr : Int → Int → Int
  | .ofNat m, .ofNat n => .ofNat (m ||| n)
  | .ofNat m, .negSucc n => .negSucc (bitsWithout n m)
  | .negSucc m, .ofNat n => .negSucc (bitsWithout m n)
  | .negSucc m, .negSucc n => .negSucc (m &&& n)

/-- Bits set in exactly one of the two. -/
def bitXor : Int → Int → Int
  | .ofNat m, .ofNat n => .ofNat (m ^^^ n)
  | .ofNat m, .negSucc n => .negSucc (m ^^^ n)
  | .negSucc m, .ofNat n => .negSucc (m ^^^ n)
  | .negSucc m, .negSucc n => .ofNat (m ^^^ n)

/-- Every bit turned over. -/
def bitNot : Int → Int
  | .ofNat n => .negSucc n
  | .negSucc n => .ofNat n

end StackScript.Number
