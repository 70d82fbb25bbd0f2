/-!
# Stacks with access at a depth

A stack lists its items from the top down, so depth 0 is the top. Items can be read, replaced,
taken out and put in at any depth; every access beyond the bottom fails and says how far it
reached. An item may be put in at the depth just below the bottom one.
-/

namespace StackScript

/-- An access at a depth the stack does not have. -/
structure DepthError where
  /-- The depth asked for. -/
  depth : Nat
  /-- The number of items. -/
  size : Nat
  deriving DecidableEq, Repr

/-- The wording of the failure. -/
def DepthError.message (e : DepthError) : String :=
  s!"stack depth {e.depth} out of range for stack of size {e.size}"

/-- A stack, its top item first. -/
abbrev Stack (α : Type) := List α

namespace Stack

variable {α : Type}

/-- The item at a depth. -/
def peek (s : Stack α) (depth : Nat) : Except DepthError α :=
  match s[depth]? with
  | some a => .ok a
  | none => .error ⟨depth, s.length⟩

/-- The item at a depth, and the stack without it. -/
def remove (s : Stack α) (depth : Nat) : Except DepthError (α × Stack α) :=
  match s[depth]? with
  | some a => .ok (a, s.eraseIdx depth)
  | none => .error ⟨depth, s.length⟩

/-- The top item, and the stack without it. -/
def pop (s : Stack α) : Except DepthError (α × Stack α) := remove s 0

/-- Whether there are fewer than `count` items. No more than `count` of them are looked at. -/
def hasFewer (s : Stack α) (count : Nat) : Bool := (s.take count).length < count

/-- The stack with another item at a depth. -/
def replace (s : Stack α) (depth : Nat) (a : α) : Except DepthError (Stack α) :=
  if hasFewer s (depth + 1) then .error ⟨depth, s.length⟩ else .ok (s.set depth a)

/-- The stack with an item put in so that it stands at the depth. -/
def insert (s : Stack α) (depth : Nat) (a : α) : Except DepthError (Stack α) :=
  if hasFewer s depth then .error ⟨depth, s.length⟩ else .ok (s.insertIdx depth a)

@[simp] theorem hasFewer_eq (s : Stack α) (count : Nat) :
    hasFewer s count = decide (s.length < count) := by
  simp only [hasFewer, List.length_take, decide_eq_decide]
  omega

end Stack

end StackScript
