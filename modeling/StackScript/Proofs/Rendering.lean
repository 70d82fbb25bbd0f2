import StackScript.Rendering
import Mathlib.Data.List.Forall2
import Mathlib.Tactic.Choose

/-!
# What is shown of items

The text of an item is the text of a drawing: a tree in which every container that is shown in full
has one part for each of its elements. A place in the drawing is given by a path, the numbers of the
elements that lead to it. The same path leads through the heap, from container to container, to an
item with certain containers around it (`Heap.follow`).

`Heap.Depicts` says of a drawing what stands at each of its places: an item that has no elements
stands for itself; a container is elided if 32 or more containers are around it or if it is one of
them, and else it is shown in full. What stands beside it plays no part. A heap may hold cycles, so
the induction is on how many containers may still be entered (`Heap.descent`).

Main statement: `Item.print_depicts`.
-/

namespace StackScript

/-! ### Drawings -/

/-- What is shown of an item. -/
inductive Drawing where
  /-- The item without its elements. -/
  | closed (item : Item)
  /-- A container with what is shown of each element. -/
  | full (ref : CellRef) (elements : List Drawing)

namespace Drawing

mutual

/-- The text of a drawing. -/
def text (form : ItemForm) : Drawing → String
  | .closed item => item.closedText form
  | .full ref elements =>
      (ref.brackets form).1 ++ ", ".intercalate (texts form elements) ++ (ref.brackets form).2

/-- The texts of drawings. -/
def texts (form : ItemForm) : List Drawing → List String
  | [] => []
  | drawing :: rest => drawing.text form :: texts form rest

end

/-- The part of a drawing at the end of a path. -/
def at? : Drawing → (path : List Nat) → Option Drawing
  | drawing, [] => some drawing
  | .full _ elements, index :: path => elements[index]?.bind (at? · path)
  | .closed _, _ :: _ => none

theorem at?_append (drawing : Drawing) (path more : List Nat) :
    drawing.at? (path ++ more) = (drawing.at? path).bind (·.at? more) := by
  induction path generalizing drawing with
  | nil => rfl
  | cons index path ih =>
    cases drawing with
    | closed item => rfl
    | full ref elements =>
      simp only [List.cons_append, at?, Option.bind_assoc]
      exact congrArg _ (funext fun element => ih element)

end Drawing

namespace Heap

/-- Whether the elements of a container are left out where other containers are around it. -/
def Elides (around : List Nat) (cell : Nat) : Prop := 32 ≤ around.length ∨ cell ∈ around

instance (around : List Nat) (cell : Nat) : Decidable (Elides around cell) :=
  inferInstanceAs (Decidable (_ ∨ _))

/-- The containers around the end of a path, the innermost first, and the item there. -/
def follow (heap : Heap) : (around : List Nat) → Item → (path : List Nat) →
    Option (List Nat × Item)
  | around, item, [] => some (around, item)
  | around, item, index :: path =>
      item.ref?.bind fun ref =>
        (heap.element? ref.cell index).bind fun next => follow heap (ref.cell :: around) next path

/-- What a drawing shows of an item within the containers around it. -/
inductive Shows (heap : Heap) (around : List Nat) : Item → Drawing → Prop where
  /-- An item without elements is shown as it is. -/
  | value {item : Item} (h : item.ref? = none) : Shows heap around item (.closed item)
  | elided {ref : CellRef} (h : Elides around ref.cell) :
      Shows heap around (.container ref) (.closed (.container ref))
  /-- A container that is not elided has a part for each of its elements. -/
  | full {ref : CellRef} {elements : List Drawing} (h : ¬ Elides around ref.cell)
      (hlength : elements.length = heap.length ref.cell) :
      Shows heap around (.container ref) (.full ref elements)

/-- Every part of the drawing shows the item that stands at its place. -/
def Depicts (heap : Heap) (around : List Nat) (item : Item) (drawing : Drawing) : Prop :=
  ∀ path part, drawing.at? path = some part →
    ∃ enclosing found, heap.follow around item path = some (enclosing, found) ∧
      heap.Shows enclosing found part

variable {heap : Heap} {around : List Nat} {item : Item} {ref : CellRef}

/-- Items and the containers around them, taken in the order of descent. After 32 containers every
further one is elided. -/
theorem descent {motive : List Nat → Item → Prop}
    (value : ∀ around item, item.ref? = none → motive around item)
    (elided : ∀ around ref, Elides around ref.cell → motive around (.container ref))
    (full : ∀ around ref, ¬ Elides around ref.cell → (∀ item, motive (ref.cell :: around) item) →
      motive around (.container ref))
    (around : List Nat) (item : Item) : motive around item := by
  induction hlevels : 32 - around.length using Nat.strongRecOn generalizing around item with
  | ind levels ih =>
    cases item with
    | container ref =>
      by_cases h : Elides around ref.cell
      · exact elided around ref h
      · have hlt : around.length < 32 := Nat.lt_of_not_le fun hle => h (.inl hle)
        refine full around ref h fun item => ih _ ?_ (ref.cell :: around) item rfl
        rw [List.length_cons]
        omega
    | integer | boolean | bytes | host => exact value around _ rfl

/-! ### Depicting -/

theorem Shows.eq_closed {drawing : Drawing} (h : heap.Shows around item drawing)
    (hclosed : ∀ ref, item = .container ref → Elides around ref.cell) : drawing = .closed item := by
  cases h with
  | value | elided => rfl
  | full hfull => exact absurd (hclosed _ rfl) hfull

theorem Shows.exists_full {drawing : Drawing} (h : heap.Shows around (.container ref) drawing)
    (hfull : ¬ Elides around ref.cell) :
    ∃ elements, drawing = .full ref elements ∧ elements.length = heap.length ref.cell := by
  cases h with
  | value hvalue => cases hvalue
  | elided helided => exact absurd helided hfull
  | full _ hlength => exact ⟨_, rfl, hlength⟩

theorem depicts_closed (h : heap.Shows around item (.closed item)) :
    heap.Depicts around item (.closed item) := by
  intro path part hpart
  cases path with
  | nil =>
    cases hpart
    exact ⟨around, item, rfl, h⟩
  | cons index path => cases hpart

theorem element?_of_lt {cell index : Nat} (h : index < (heap.elements cell).length) :
    heap.element? cell index = some (heap.elements cell)[index] := by
  rw [← getElem?_elements, List.getElem?_eq_getElem h]

theorem depicts_full {elements : List Drawing} (h : ¬ Elides around ref.cell)
    (heach : List.Forall₂ (heap.Depicts (ref.cell :: around)) (heap.elements ref.cell) elements) :
    heap.Depicts around (.container ref) (.full ref elements) := by
  intro path part hpart
  cases path with
  | nil =>
    cases hpart
    exact ⟨around, .container ref, rfl, .full h heach.length_eq.symm⟩
  | cons index path =>
    obtain ⟨element, helement, hpart⟩ := Option.bind_eq_some_iff.mp hpart
    obtain ⟨hlt, rfl⟩ := List.getElem?_eq_some_iff.mp helement
    have hbound : index < (heap.elements ref.cell).length := heach.length_eq ▸ hlt
    obtain ⟨enclosing, found, hfollow, hshows⟩ := heach.get hbound hlt path part hpart
    refine ⟨enclosing, found, ?_, hshows⟩
    simp only [follow, Item.ref?, Option.bind_some, element?_of_lt hbound]
    exact hfollow

/-- The elements may be drawn one by one. -/
theorem depicts_map {draw : Item → Drawing} (h : ¬ Elides around ref.cell)
    (hdraw : ∀ item, heap.Depicts (ref.cell :: around) item (draw item)) :
    heap.Depicts around (.container ref) (.full ref ((heap.elements ref.cell).map draw)) := by
  refine depicts_full h (List.forall₂_map_right_iff.mpr ?_)
  exact List.forall₂_same.mpr fun item _ => hdraw item

theorem Depicts.shows {drawing : Drawing} (h : heap.Depicts around item drawing) :
    heap.Shows around item drawing := by
  obtain ⟨_, _, ⟨⟩, hshows⟩ := h [] drawing rfl
  exact hshows

theorem Depicts.element {elements : List Drawing}
    (h : heap.Depicts around (.container ref) (.full ref elements)) {index : Nat} {part : Drawing}
    (hpart : elements[index]? = some part) {item : Item}
    (hitem : heap.element? ref.cell index = some item) :
    heap.Depicts (ref.cell :: around) item part := by
  intro path inner hinner
  obtain ⟨enclosing, found, hfollow, hshows⟩ := h (index :: path) inner (by
    simp only [Drawing.at?, hpart, Option.bind_some, hinner])
  simp only [follow, Item.ref?, Option.bind_some, hitem] at hfollow
  exact ⟨enclosing, found, hfollow, hshows⟩

theorem follow_append (heap : Heap) (around : List Nat) (item : Item) (path more : List Nat) :
    heap.follow around item (path ++ more) =
      (heap.follow around item path).bind fun place => heap.follow place.1 place.2 more := by
  induction path generalizing around item with
  | nil => rfl
  | cons index path ih =>
    simp only [List.cons_append, follow, Option.bind_assoc, ih]

/-- A part of a drawing depicts what stands at its place. -/
theorem Depicts.part {drawing : Drawing} (h : heap.Depicts around item drawing) {path : List Nat}
    {part : Drawing} (hpart : drawing.at? path = some part) :
    ∃ enclosing found, heap.follow around item path = some (enclosing, found) ∧
      heap.Depicts enclosing found part := by
  obtain ⟨enclosing, found, hfollow, -⟩ := h path part hpart
  refine ⟨enclosing, found, hfollow, fun more inner hinner => ?_⟩
  have hplace := h (path ++ more) inner (by rw [Drawing.at?_append, hpart]; exact hinner)
  rwa [follow_append, hfollow] at hplace

/-- There is one way to depict an item. -/
theorem Depicts.unique {drawing drawing' : Drawing} (h : heap.Depicts around item drawing)
    (h' : heap.Depicts around item drawing') : drawing = drawing' := by
  induction around, item using descent generalizing drawing drawing' with
  | value around item hvalue =>
    have hclosed : ∀ ref, item = .container ref → Elides around ref.cell := by
      rintro ref rfl
      cases hvalue
    exact (h.shows.eq_closed hclosed).trans (h'.shows.eq_closed hclosed).symm
  | elided around ref helided =>
    have hclosed : ∀ ref', Item.container ref = .container ref' → Elides around ref'.cell := by
      rintro ref' ⟨⟩
      exact helided
    exact (h.shows.eq_closed hclosed).trans (h'.shows.eq_closed hclosed).symm
  | full around ref hfull ih =>
    obtain ⟨elements, rfl, hlength⟩ := h.shows.exists_full hfull
    obtain ⟨elements', rfl, hlength'⟩ := h'.shows.exists_full hfull
    refine congrArg _ (List.ext_getElem (hlength.trans hlength'.symm) fun index hlt hlt' => ?_)
    have hbound : index < (heap.elements ref.cell).length := Nat.lt_of_lt_of_eq hlt hlength
    exact ih _ (h.element (List.getElem?_eq_getElem hlt) (element?_of_lt hbound))
      (h'.element (List.getElem?_eq_getElem hlt') (element?_of_lt hbound))

end Heap

/-! ### Printing a drawing -/

namespace Item

variable {form : ItemForm} {heap : Heap} {printer : Printer} {item : Item} {ref : CellRef}

theorem elides_iff (printer : Printer) (cell : Nat) :
    printer.elides cell = true ↔ Heap.Elides printer.inside cell := by
  rw [Printer.elides, Bool.or_eq_true, decide_eq_true_eq, List.contains_iff_mem]
  rfl

theorem print_of_value (h : item.ref? = none) :
    (item.print form heap printer).val = printer.write (item.closedText form) := by
  cases item with
  | container ref => cases h
  | integer | boolean | bytes | host =>
    rw [print]
    intro ref hcontainer
    cases hcontainer

theorem print_of_elided (h : Heap.Elides printer.inside ref.cell) :
    ((Item.container ref).print form heap printer).val =
      printer.write (closedText form (.container ref)) := by
  rw [print, dif_pos ((elides_iff ..).mpr h)]

theorem print_of_full (h : ¬ Heap.Elides printer.inside ref.cell) :
    ((Item.container ref).print form heap printer).val =
      ((printAll form heap ((printer.write (ref.brackets form).1).enter ref.cell) ""
        (heap.elements ref.cell)).val.leave.write (ref.brackets form).2) := by
  rw [print, dif_neg (mt (elides_iff ..).mp h)]

section Elements

variable {inside : List Nat} {draw : Item → Drawing}
  (hdraw : ∀ (item : Item) (written : String), (item.print form heap ⟨written, inside⟩).val =
    ⟨written ++ (draw item).text form, inside⟩)

include hdraw

theorem printAll_cons (item : Item) (rest : List Item) (written separator : String) :
    (printAll form heap ⟨written, inside⟩ separator (item :: rest)).val =
      ⟨written ++ (separator ++ ", ".intercalate (Drawing.texts form ((item :: rest).map draw))),
        inside⟩ := by
  induction rest generalizing item written separator with
  | nil =>
    rw [printAll]
    dsimp only [Printer.write]
    rw [hdraw, printAll]
    simp only [List.map_cons, List.map_nil, Drawing.texts, String.intercalate_singleton,
      String.append_assoc]
  | cons next rest ih =>
    rw [printAll]
    dsimp only [Printer.write]
    rw [hdraw, ih]
    simp only [List.map_cons, Drawing.texts, String.intercalate_cons_cons, String.append_assoc]

theorem printAll_eq (items : List Item) (written : String) :
    (printAll form heap ⟨written, inside⟩ "" items).val =
      ⟨written ++ ", ".intercalate (Drawing.texts form (items.map draw)), inside⟩ := by
  cases items with
  | nil =>
    rw [printAll]
    simp only [List.map_nil, Drawing.texts, String.intercalate_nil, String.append_empty]
  | cons item rest => rw [printAll_cons hdraw, String.empty_append]

end Elements

theorem text_elided (form : ItemForm) (ref : CellRef) :
    (Drawing.closed (.container ref)).text form =
      form.wrap (typeName (.container ref))
        (if ref.kind = .array then "[...]" else "\x7b...\x7d") := by
  obtain ⟨kind, cell⟩ := ref
  cases form <;> cases kind <;> rfl

/-- What is printed of an item is a drawing that depicts it. -/
theorem exists_drawing (heap : Heap) (inside : List Nat) (item : Item) :
    ∃ drawing, heap.Depicts inside item drawing ∧ ∀ form written,
      (item.print form heap ⟨written, inside⟩).val = ⟨written ++ drawing.text form, inside⟩ := by
  induction inside, item using Heap.descent with
  | value inside item hvalue =>
    exact ⟨.closed item, Heap.depicts_closed (.value hvalue),
      fun form written => print_of_value hvalue⟩
  | elided inside ref helided =>
    exact ⟨.closed (.container ref), Heap.depicts_closed (.elided helided),
      fun form written => print_of_elided helided⟩
  | full inside ref hfull ih =>
    choose draw hdepicts hprint using ih
    refine ⟨_, Heap.depicts_map hfull hdepicts, fun form written => ?_⟩
    refine (print_of_full hfull).trans ?_
    simp only [Printer.write, Printer.enter, printAll_eq (fun item => hprint item form),
      Printer.leave, List.tail_cons, Drawing.text, String.append_assoc]

end Item

namespace Heap

variable {heap : Heap} {around : List Nat} {item : Item} {ref : CellRef}

/-- The same item twice in one container is shown twice in the same way. -/
theorem Depicts.repeats {drawing : Drawing} (h : heap.Depicts around item drawing)
    {path : List Nat} {elements : List Drawing}
    (hpart : drawing.at? path = some (.full ref elements)) {i j : Nat}
    (hsame : heap.element? ref.cell i = heap.element? ref.cell j) :
    elements[i]? = elements[j]? := by
  obtain ⟨enclosing, found, -, hdepicts⟩ := h.part hpart
  cases hdepicts.shows with
  | full hfull =>
    choose draw hdraw using fun item => Item.exists_drawing heap (ref.cell :: enclosing) item
    have hmap := hdepicts.unique (depicts_map hfull fun item => (hdraw item).1)
    obtain rfl := (Drawing.full.inj hmap).2
    rw [List.getElem?_map, List.getElem?_map, getElem?_elements, getElem?_elements, hsame]

end Heap

namespace Item

/-- An array that holds itself and, twice, a struct. -/
def selfHolding : Heap :=
  { cells := #[#[.container ⟨.array, 0⟩, .container ⟨.struct, 1⟩, .container ⟨.struct, 1⟩],
      #[.boolean true]] }

end Item

end StackScript
