import StackScript.Item

/-!
# The heap of containers

Every array and struct has a cell with its elements, and a reference names the cell by number. New
cells are appended and none is ever dropped, so a number keeps its meaning. An array that holds a
reference to itself is an ordinary value.

`copy` is what storing into a container does to a struct: the struct and all structs inside it get
cells of their own, everything else is shared. The copies are appended level by level: first the
struct itself, then the structs among its elements, then those inside these. The copy of the `k`-th
struct of a level is the `k`-th cell of that level, so the number of a nested copy is known before
the copy is made. A chain of nested structs passes through no cell twice, so there are at most as
many levels as there are cells.

`clone` makes the same copy from a worklist. Every struct that is met gets an empty cell at once,
and the two cells are put on a list from which the last pair is taken first. The cells get their
numbers in another order, and how many turns it takes depends on how often structs are shared.
-/

namespace StackScript

/-- The cells of all containers, the number of host objects made so far, and what room there is. -/
structure Heap where
  /-- The elements of each cell. -/
  cells : Array (Array Item) := #[]
  /-- The number of host objects made so far. -/
  objects : Nat := 0
  /-- Whether the host has room for a new container of that many elements. -/
  room : Nat → Bool := fun _ => true

namespace Heap

/-- The number of cells. -/
def size (heap : Heap) : Nat := heap.cells.size

/-- The elements of a cell. -/
def elements (heap : Heap) (cell : Nat) : List Item := (heap.cells.getD cell #[]).toList

/-- The number of elements of a cell. -/
def length (heap : Heap) (cell : Nat) : Nat := (heap.cells.getD cell #[]).size

/-- An element of a cell. -/
def element? (heap : Heap) (cell index : Nat) : Option Item := (heap.cells.getD cell #[])[index]?

/-- The heap with one more cell. -/
def append (heap : Heap) (elements : Array Item) : Heap :=
  { heap with cells := heap.cells.push elements }

/-- A new container. -/
def alloc (heap : Heap) (kind : ContainerKind) (elements : Array Item) : Item × Heap :=
  (.container ⟨kind, heap.size⟩, heap.append elements)

/-- The heap with one element of a cell replaced. -/
def setElement (heap : Heap) (cell index : Nat) (item : Item) : Heap :=
  { heap with cells := heap.cells.modify cell fun elements => elements.setIfInBounds index item }

/-- The heap with all elements of a cell replaced. -/
def setElements (heap : Heap) (cell : Nat) (elements : Array Item) : Heap :=
  { heap with cells := heap.cells.setIfInBounds cell elements }

/-- A new host object. -/
def newObject (heap : Heap) (name : String) (tag : Option Int) : HostObject × Heap :=
  (⟨heap.objects, name, tag⟩, { heap with objects := heap.objects + 1 })

/-! ### Copying structs -/

/-- Puts elements, the last one first, in front of `done`, with the structs among them replaced by
the structs numbered from `next` on. -/
def renumberOnto (done : List Item) (next : Nat) : List Item → List Item
  | [] => done
  | item :: rest =>
      match item.structCell? with
      | some _ => renumberOnto (.container ⟨.struct, next⟩ :: done) (next + 1) rest
      | none => renumberOnto (item :: done) next rest

/-- Elements with the structs among them replaced by the structs numbered from `next` on. -/
def renumber (next : Nat) (elements : List Item) : List Item :=
  (renumberOnto [] next elements).reverse

/-- The cells of the structs among some elements. -/
def structCells (elements : List Item) : List Nat := elements.filterMap Item.structCell?

/-- The cells of the structs among a cell's elements. -/
def nested (heap : Heap) (cell : Nat) : List Nat := structCells (heap.elements cell)

/-- Appends copies of the given cells in order. The structs inside them are numbered from `next`
on. -/
def appendCopies (heap : Heap) (next : Nat) : (sources : List Nat) → Heap
  | [] => heap
  | source :: rest =>
      let elements := heap.elements source
      appendCopies (heap.append (renumber next elements).toArray)
        (next + (structCells elements).length) rest

/-- Appends copies of the given cells, of the structs inside them, and so on for `levels` levels. -/
def copyLevels (heap : Heap) : (levels : Nat) → (sources : List Nat) → Heap
  | _, [] => heap
  | 0, _ :: _ => heap
  | levels + 1, source :: rest =>
      let sources := source :: rest
      let inner := sources.flatMap heap.nested
      copyLevels (heap.appendCopies (heap.size + sources.length) sources) levels inner

/-- An item ready to be stored into a container: a struct is copied, anything else is shared. -/
def copy (heap : Heap) (item : Item) : Item × Heap :=
  match item.structCell? with
  | some cell => (.container ⟨.struct, heap.size⟩, heap.copyLevels heap.size [cell])
  | none => (item, heap)

/-- Puts copies of items, the last one first, in front of `done`. -/
def copyAllOnto (heap : Heap) (done : List Item) : List Item → List Item × Heap
  | [] => (done, heap)
  | item :: rest =>
      let (copied, heap) := heap.copy item
      copyAllOnto heap (copied :: done) rest

/-- Items ready to be stored into a container, each copied in turn. -/
def copyAll (heap : Heap) (items : List Item) : List Item × Heap :=
  let (copied, heap) := heap.copyAllOnto [] items
  (copied.reverse, heap)

end Heap

/-! ### Copying structs from a worklist -/

/-- A heap with cells that are still to be filled. -/
structure Worklist where
  /-- The heap, with empty cells for the copies to come. -/
  heap : Heap
  /-- Cells to be copied, each with the cell for its copy, the next pair first. -/
  pending : List (Nat × Nat)

namespace Worklist

/-- What takes the place of an element in a copy: of a struct an empty cell, to be filled later. -/
def visit (w : Worklist) (item : Item) : Item × Worklist :=
  match item.structCell? with
  | some cell =>
      let fresh := w.heap.size
      (.container ⟨.struct, fresh⟩, ⟨w.heap.append #[], (cell, fresh) :: w.pending⟩)
  | none => (item, w)

/-- What takes the places of elements in a copy. -/
def visitAll (w : Worklist) : List Item → List Item × Worklist
  | [] => ([], w)
  | item :: rest =>
      let (copied, w) := w.visit item
      let (copies, w) := w.visitAll rest
      (copied :: copies, w)

/-- Fills the cell `target` with a copy of the elements of `source`. -/
def fill (w : Worklist) (source target : Nat) : Worklist :=
  let (copies, w) := w.visitAll (w.heap.elements source)
  { w with heap := w.heap.setElements target copies.toArray }

/-- The heap once nothing is left to be filled, if this takes no more than `turns` turns. -/
def run : (turns : Nat) → Worklist → Option Heap
  | _, ⟨heap, []⟩ => some heap
  | 0, ⟨_, _ :: _⟩ => none
  | turns + 1, ⟨heap, (source, target) :: rest⟩ => run turns (fill ⟨heap, rest⟩ source target)

end Worklist

namespace Heap

/-- An item ready to be stored into a container: a struct is copied from a worklist, if this takes
no more than `turns` turns, and anything else is shared. -/
def clone (heap : Heap) (turns : Nat) (item : Item) : Option (Item × Heap) :=
  match item.structCell? with
  | some cell =>
      (Worklist.run turns ⟨heap.append #[], [(cell, heap.size)]⟩).map fun final =>
        (.container ⟨.struct, heap.size⟩, final)
  | none => some (item, heap)

/-! ### Small laws -/

@[simp] theorem length_elements (heap : Heap) (cell : Nat) :
    (heap.elements cell).length = heap.length cell := rfl

@[simp] theorem getElem?_elements (heap : Heap) (cell index : Nat) :
    (heap.elements cell)[index]? = heap.element? cell index := by
  simp [elements, element?]

end Heap

/-! ### Building items -/

/-- A description of an item that is not built yet. -/
inductive Literal where
  | integer (value : Int)
  | boolean (value : Bool)
  | bytes (data : Bytes)
  /-- A new container. -/
  | container (kind : ContainerKind) (elements : List Literal)
  /-- A new host object. -/
  | object (name : String) (tag : Option Int)
  /-- An item that exists already. -/
  | existing (item : Item)
  deriving Inhabited

mutual

/-- Builds an item, with new containers and host objects where the description asks for them. -/
def Literal.build (heap : Heap) : Literal → Item × Heap
  | .integer value => (.integer value, heap)
  | .boolean value => (.boolean value, heap)
  | .bytes data => (.bytes data, heap)
  | .container kind elements =>
      let (items, heap) := Literal.buildAll heap elements
      heap.alloc kind items.toArray
  | .object name tag =>
      let (made, heap) := heap.newObject name tag
      (.host made, heap)
  | .existing item => (item, heap)

/-- Builds items in turn. -/
def Literal.buildAll (heap : Heap) : List Literal → List Item × Heap
  | [] => ([], heap)
  | literal :: rest =>
      let (item, heap) := literal.build heap
      let (items, heap) := Literal.buildAll heap rest
      (item :: items, heap)

end

end StackScript
