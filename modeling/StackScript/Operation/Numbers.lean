import StackScript.Number.Bits
import StackScript.Opcode
import StackScript.Workspace

/-!
# Operations on numbers

The right operand is on top of the left one. Division and remainder go toward zero. A shift by a
negative number goes the other way.
-/

namespace StackScript

namespace Operation

/-- Replaces an integer by a function of it. -/
def unary (instruction : String) (f : Int → Item) : Operation Unit := do
  let x ← popInteger instruction
  push (f x)

/-- Replaces two integers by a function of them. -/
def binary (instruction : String) (f : Int → Int → Item) : Operation Unit := do
  let b ← popInteger instruction
  let a ← popInteger instruction
  push (f a b)

/-- Replaces a dividend and a divisor by a function of them, if the divisor is not zero. -/
def division (instruction : String) (f : Int → Int → Int) : Operation Unit := do
  let b ← popInteger instruction
  let a ← popInteger instruction
  if b = 0 then throw .divisionByZero
  pushInteger (f a b)

/-- Shifts an integer by another one, `SHL` to the left and the other operation to the right; a
negative amount turns the direction round. -/
def shift (op : NumberOp) : Operation Unit := do
  let n ← popInt32 op.mnemonic
  let x ← popInteger op.mnemonic
  let left := decide (op = .shl) == decide (0 ≤ n)
  let amount := n.natAbs
  pushInteger (if left then x <<< amount else x >>> amount)

/-- Replaces two truth values by a function of them. -/
def logical (f : Bool → Bool → Bool) : Operation Unit := do
  let b ← popBool
  let a ← popBool
  pushBool (f a b)

end Operation

/-- What an operation on numbers does. -/
def NumberOp.run (op : NumberOp) : Operation Unit :=
  match op with
  | .invert => Operation.unary op.mnemonic fun x => .integer (Number.bitNot x)
  | .and => Operation.binary op.mnemonic fun a b => .integer (Number.bitAnd a b)
  | .or => Operation.binary op.mnemonic fun a b => .integer (Number.bitOr a b)
  | .xor => Operation.binary op.mnemonic fun a b => .integer (Number.bitXor a b)
  | .equal => do
      let b ← Operation.pop
      let a ← Operation.pop
      Operation.pushBool (a.equals b)
  | .inc => Operation.unary op.mnemonic fun x => .integer (x + 1)
  | .dec => Operation.unary op.mnemonic fun x => .integer (x - 1)
  | .sign => Operation.unary op.mnemonic fun x => .integer x.sign
  | .negate => Operation.unary op.mnemonic fun x => .integer (-x)
  | .abs => Operation.unary op.mnemonic fun x => .integer (Int.ofNat x.natAbs)
  | .not => do
      let x ← Operation.popBool
      Operation.pushBool !x
  | .nz => Operation.unary op.mnemonic fun x => .boolean (x != 0)
  | .add => Operation.binary op.mnemonic fun a b => .integer (a + b)
  | .sub => Operation.binary op.mnemonic fun a b => .integer (a - b)
  | .mul => Operation.binary op.mnemonic fun a b => .integer (a * b)
  | .div => Operation.division op.mnemonic Int.tdiv
  | .mod => Operation.division op.mnemonic Int.tmod
  | .shl | .shr => Operation.shift op
  | .boolAnd => Operation.logical fun a b => a && b
  | .boolOr => Operation.logical fun a b => a || b
  | .numEqual => Operation.binary op.mnemonic fun a b => .boolean (a == b)
  | .numNotEqual => Operation.binary op.mnemonic fun a b => .boolean (a != b)
  | .lt => Operation.binary op.mnemonic fun a b => .boolean (a < b)
  | .gt => Operation.binary op.mnemonic fun a b => .boolean (b < a)
  | .lte => Operation.binary op.mnemonic fun a b => .boolean (a ≤ b)
  | .gte => Operation.binary op.mnemonic fun a b => .boolean (b ≤ a)
  | .min => Operation.binary op.mnemonic fun a b => .integer (Min.min a b)
  | .max => Operation.binary op.mnemonic fun a b => .integer (Max.max a b)
  | .within => do
      let b ← Operation.popInteger op.mnemonic
      let a ← Operation.popInteger op.mnemonic
      let x ← Operation.popInteger op.mnemonic
      Operation.pushBool (a ≤ x && x < b)

end StackScript
