import StackScript.Heap
import StackScript.Text.Decimal

/-!
# The text of items

Items are shown in two forms: plainly, or with the name of their type around every value. A
container shows its elements in order. One that stands inside itself, or inside 32 others, is shown
as `[...]` or `{...}` instead; so the text of a heap with cycles is finite.

A printer writes from left to right and remembers the containers it has entered and not left. It
comes back from an item with the same containers that it went in with. So the elements of a
container are printed with one container more than the container itself, and after 32 of them there
is no further descent.
-/

namespace StackScript

/-- The two forms of text. -/
inductive ItemForm where
  /-- The value alone. -/
  | plain
  /-- The value within the name of its type. -/
  | typed
  deriving DecidableEq

/-- The number of containers a shown container may stand in. -/
def maxShownDepth : Nat := 32

/-- What stands before and behind a value of a type. -/
def ItemForm.frame (form : ItemForm) (type : String) : String × String :=
  match form with
  | .plain => ("", "")
  | .typed => (type ++ "(", ")")

/-- A text within the name of its type, if the form asks for it. -/
def ItemForm.wrap (form : ItemForm) (type text : String) : String :=
  (form.frame type).1 ++ text ++ (form.frame type).2

/-- What stands before and behind the elements of a container. -/
def ContainerKind.brackets : ContainerKind → String × String
  | .array => ("[", "]")
  | .struct => ("\x7b", "\x7d")

/-- What stands before and behind the elements of a container, the name of its type included. -/
def CellRef.brackets (form : ItemForm) (ref : CellRef) : String × String :=
  let frame := form.frame (Item.typeName (.container ref))
  (frame.1 ++ ref.kind.brackets.1, ref.kind.brackets.2 ++ frame.2)

/-! ### Printers -/

/-- Where the printing of an item stands. -/
structure Printer where
  /-- The text so far. -/
  written : String := ""
  /-- The cells of the containers entered and not left, the last one first. -/
  inside : List Nat := []

namespace Printer

/-- Writes a text behind the others. -/
def write (printer : Printer) (text : String) : Printer :=
  { printer with written := printer.written ++ text }

/-- Enters a container. -/
def enter (printer : Printer) (cell : Nat) : Printer :=
  { printer with inside := cell :: printer.inside }

/-- Leaves the container entered last. -/
def leave (printer : Printer) : Printer := { printer with inside := printer.inside.tail }

/-- Whether the elements of a container are left out. -/
def elides (printer : Printer) (cell : Nat) : Bool :=
  maxShownDepth ≤ printer.inside.length || printer.inside.contains cell

theorem inside_write (printer : Printer) (text : String) :
    (printer.write text).inside = printer.inside := rfl

theorem inside_leave {printer : Printer} {cell : Nat} {cells : List Nat}
    (h : printer.inside = cell :: cells) : printer.leave.inside = cells := by
  rw [leave, h, List.tail_cons]

/-- A container that is entered is not the last one that can be. -/
theorem length_inside_lt {printer : Printer} {cell : Nat} (h : ¬ printer.elides cell = true) :
    printer.inside.length < maxShownDepth := by
  simp only [elides, Bool.or_eq_true, decide_eq_true_eq, not_or] at h
  omega

end Printer

namespace Item

/-- The text of a truth value. -/
def boolText (b : Bool) : String := if b then "true" else "false"

/-- The text of an item without its elements. -/
def closedText (form : ItemForm) : Item → String
  | .integer value => form.wrap "Integer" (Text.integer value)
  | .boolean value => form.wrap "Boolean" (boolText value)
  | .bytes data => form.wrap "ByteArray" (Text.Hex.encodeMarked data)
  | .host object =>
      match form with
      | .plain => "<" ++ object.name ++ ">"
      | .typed => "Interop(" ++ object.name ++ ")"
  | .container ref => (ref.brackets form).1 ++ "..." ++ (ref.brackets form).2

mutual

/-- Prints an item. -/
def print (form : ItemForm) (heap : Heap) (printer : Printer) (item : Item) :
    { after : Printer // after.inside = printer.inside } :=
  match item with
  | .container ref =>
      if h : printer.elides ref.cell = true then
        ⟨printer.write (closedText form (.container ref)), printer.inside_write _⟩
      else
        have := Printer.length_inside_lt h
        let inner := (printer.write (ref.brackets form).1).enter ref.cell
        let done := printAll form heap inner "" (heap.elements ref.cell)
        ⟨done.val.leave.write (ref.brackets form).2,
          (done.val.leave.inside_write _).trans (Printer.inside_leave done.property)⟩
  | item => ⟨printer.write (item.closedText form), printer.inside_write _⟩
termination_by (maxShownDepth - printer.inside.length, 0)
decreasing_by
  refine Prod.Lex.left _ _ ?_
  show maxShownDepth - (printer.inside.length + 1) < maxShownDepth - printer.inside.length
  omega

/-- Prints items in turn, with a separator before the first of them and a comma before each of the
others. -/
def printAll (form : ItemForm) (heap : Heap) (printer : Printer) (separator : String)
    (items : List Item) : { after : Printer // after.inside = printer.inside } :=
  match items with
  | [] => ⟨printer, rfl⟩
  | item :: rest =>
      let first := print form heap (printer.write separator) item
      let others := printAll form heap first.val ", " rest
      ⟨others.val, others.property.trans first.property⟩
termination_by (maxShownDepth - printer.inside.length, items.length + 1)
decreasing_by
  · refine Prod.Lex.right _ ?_
    omega
  · rw [first.property]
    refine Prod.Lex.right _ ?_
    simp

end

/-- The text of an item. -/
def render (form : ItemForm) (heap : Heap) (item : Item) : String :=
  (print form heap {} item).val.written

end Item

end StackScript
