import StackScript.Fault
import StackScript.Heap

/-!
# The workspace of a run

The evaluation stack, the alt stack and the heap are shared by all frames of a run. An operation
works on them and may fail with a fault; what it did before it failed stays done.

This module holds the moves that the operations are made of. An operand is taken off the stack
before it is looked at, so an operand of the wrong kind is gone when the fault is raised.
-/

namespace StackScript

/-- What instructions work on. -/
structure Workspace where
  /-- The evaluation stack. -/
  eval : Stack Item := []
  /-- The alt stack. -/
  alt : Stack Item := []
  /-- The containers. -/
  heap : Heap := {}

/-- A computation on the workspace that may fail. -/
abbrev Operation := EStateM Fault Workspace

namespace Operation

/-- The value of a stack access, or its failure as a fault. -/
def ofAccess {α : Type} : Except DepthError α → Operation α
  | .ok a => pure a
  | .error cause => throw (.depth cause)

/-! ### The evaluation stack -/

/-- Puts an item on top. -/
def push (item : Item) : Operation Unit := modify fun w => { w with eval := item :: w.eval }

/-- Puts an integer on top. -/
def pushInteger (value : Int) : Operation Unit := push (.integer value)

/-- Puts a natural number on top. -/
def pushNat (value : Nat) : Operation Unit := push (.integer (Int.ofNat value))

/-- Puts a truth value on top. -/
def pushBool (value : Bool) : Operation Unit := push (.boolean value)

/-- Puts a byte string on top. -/
def pushBytes (data : Bytes) : Operation Unit := push (.bytes data)

/-- Takes out the item at a depth. -/
def remove (depth : Nat) : Operation Item := do
  let (item, rest) ← ofAccess (Stack.remove (← get).eval depth)
  modify fun w => { w with eval := rest }
  return item

/-- Takes off the top item. -/
def pop : Operation Item := remove 0

/-- The item at a depth. -/
def peek (depth : Nat) : Operation Item := do
  ofAccess (Stack.peek (← get).eval depth)

/-- Puts an item in at a depth. -/
def insert (depth : Nat) (item : Item) : Operation Unit := do
  let items ← ofAccess (Stack.insert (← get).eval depth item)
  modify fun w => { w with eval := items }

/-- Replaces the item at a depth. -/
def replace (depth : Nat) (item : Item) : Operation Unit := do
  let items ← ofAccess (Stack.replace (← get).eval depth item)
  modify fun w => { w with eval := items }

/-- The number of items. -/
def depth : Operation Nat := return (← get).eval.length

/-! ### Operands -/

/-- Fails because an item is not of the type that `instruction` needs. -/
def mismatch {α : Type} (instruction expected : String) (item : Item) : Operation α :=
  throw (.typeMismatch instruction expected item.typeName)

/-- Takes off an item seen as an integer. -/
def popInteger (instruction : String) : Operation Int := do
  let item ← pop
  match item.integer? with
  | some value => return value
  | none => mismatch instruction "Integer" item

/-- Takes off an item seen as a truth value. -/
def popBool : Operation Bool := return (← pop).truth

/-- Takes off an item seen as a byte string. -/
def popBytes (instruction : String) : Operation Bytes := do
  let item ← pop
  match item.bytes? with
  | some data => return data
  | none => mismatch instruction "ByteArray" item

/-- Takes off an integer that fits into 32 bits. -/
def popInt32 (instruction : String) : Operation Int := do
  let value ← popInteger instruction
  if Number.TwosComplement.fits32 value then return value
  throw (.overflow instruction value)

/-- Takes off a count, index or depth: an integer of 32 bits that is not negative. -/
def popCount (instruction : String) : Operation Nat := do
  let value ← popInt32 instruction
  if value < 0 then throw (.negative instruction value)
  return value.toNat

/-- Takes off `count` byte strings, and gives them in the order taken, behind the reverse of
`done`. -/
def popManyOnto (instruction : String) (done : List Bytes) : (count : Nat) → Operation (List Bytes)
  | 0 => return done.reverse
  | count + 1 => do
      let data ← popBytes instruction
      popManyOnto instruction (data :: done) count

/-- Takes off `count` byte strings, and gives them in the order taken. -/
def popMany (instruction : String) (count : Nat) : Operation (List Bytes) :=
  popManyOnto instruction [] count

end Operation

end StackScript
