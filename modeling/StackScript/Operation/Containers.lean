import StackScript.Opcode
import StackScript.Workspace

/-!
# Operations on containers

A struct is copied when it is stored into a container, by packing it or by setting an element. An
element taken out of a container is the element itself.
-/

namespace StackScript

namespace Operation

/-- Puts a new container on top. -/
def pushContainer (kind : ContainerKind) (elements : Array Item) : Operation Unit :=
  modify fun w =>
    let (item, heap) := w.heap.alloc kind elements
    { w with heap, eval := item :: w.eval }

/-- Takes off a container. -/
def popContainer (instruction : String) : Operation CellRef := do
  let item ← pop
  match item.ref? with
  | some ref => return ref
  | none => mismatch instruction "Array" item

/-- The elements of a container. -/
def elements (ref : CellRef) : Operation (List Item) := return (← get).heap.elements ref.cell

/-- The number of elements of a container. -/
def length (ref : CellRef) : Operation Nat := return (← get).heap.length ref.cell

/-- An element of a container. -/
def element? (ref : CellRef) (index : Nat) : Operation (Option Item) :=
  return (← get).heap.element? ref.cell index

/-- Whether there is room for a container of that many elements. -/
def hasRoom (count : Nat) : Operation Bool := return (← get).heap.room count

/-- Takes off the number of elements of a new container, if there is room for them. -/
def popSize (instruction : String) : Operation Nat := do
  let count ← popCount instruction
  unless ← hasRoom count do throw (.allocation count)
  return count

/-- Replaces a count by a new container of that many elements, all of them false. -/
def newContainer (instruction : String) (kind : ContainerKind) : Operation Unit := do
  let count ← popSize instruction
  pushContainer kind (Array.replicate count (.boolean false))

/-- Takes off an item and copies it if it is a struct. -/
def popCopy : Operation Item := do
  let item ← pop
  modifyGet fun w =>
    let (copied, heap) := w.heap.copy item
    (copied, { w with heap })

/-- Takes off `count` items and copies the structs among them, the top item first. -/
def popCopies (count : Nat) : Operation (List Item) :=
  modifyGet fun w =>
    let (copied, heap) := w.heap.copyAll (w.eval.take count)
    (copied, { w with heap, eval := w.eval.drop count })

end Operation

/-- What an operation on containers does. -/
def ContainerOp.run (op : ContainerOp) : Operation Unit :=
  match op with
  | .arraySize => do
      let item ← Operation.pop
      match item.ref?, item.size? with
      | some ref, _ => Operation.pushNat (← Operation.length ref)
      | none, some count => Operation.pushNat count
      | none, none => Operation.mismatch op.mnemonic "Array" item
  | .pack => do
      let count ← Operation.popInt32 op.mnemonic
      if count < 0 ∨ Stack.hasFewer (← get).eval count.toNat then
        throw (.argumentRange op.mnemonic count (← Operation.depth))
      let items ← Operation.popCopies count.toNat
      Operation.pushContainer .array items.toArray
  | .unpack => do
      let ref ← Operation.popContainer op.mnemonic
      let elements ← Operation.elements ref
      modify fun w => { w with eval := elements ++ w.eval }
      Operation.pushNat elements.length
  | .pickItem => do
      let index ← Operation.popCount op.mnemonic
      let ref ← Operation.popContainer op.mnemonic
      match ← Operation.element? ref index with
      | some element => Operation.push element
      | none => throw (.indexRange index (← Operation.length ref))
  | .setItem => do
      let value ← Operation.popCopy
      let index ← Operation.popCount op.mnemonic
      let ref ← Operation.popContainer op.mnemonic
      let length ← Operation.length ref
      if index < length then
        modify fun w => { w with heap := w.heap.setElement ref.cell index value }
      else throw (.indexRange index length)
  | .newArray => Operation.newContainer op.mnemonic .array
  | .newStruct => Operation.newContainer op.mnemonic .struct

end StackScript
