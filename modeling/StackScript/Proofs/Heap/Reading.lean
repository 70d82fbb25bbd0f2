import StackScript.Proofs.Heap.Ownership

/-!
# Reading through structs

`Heap.read` follows a path through the elements of structs and tells what is seen at its end: how
many elements a struct has, and of anything else the item itself. Two items that read the same along
every path unfold to the same tree of structs, with the same other items at its leaves.

The copies of a level are paired with their sources, in order (`forall₂_renamed_appendCopies`): the
elements of a copy are those of its source, with the structs among them replaced by the copies of
the next level.

Main statements: what is read depends on the cells that the path can lead to and on no others
(`read_congr`), and a copy reads like its source along every path (`CopiesTo.read_eq`).
-/

namespace StackScript.Heap

/-! ### Paths -/

/-- What is seen of an item from outside. -/
inductive Sight where
  /-- A struct of that many elements. -/
  | struct (length : Nat)
  /-- An item that is no struct. -/
  | other (item : Item)
  deriving DecidableEq

/-- What is seen of an item from outside: of a struct its length, of anything else all of it. -/
def sight (heap : Heap) (item : Item) : Sight :=
  match item.structCell? with
  | some cell => .struct (heap.length cell)
  | none => .other item

/-- What is seen at the end of a path that leads from an item through elements of structs. -/
def read (heap : Heap) : (item : Item) → (path : List Nat) → Option Sight
  | item, [] => some (heap.sight item)
  | item, index :: path =>
    match item.structCell? with
    | some cell => (heap.element? cell index).bind fun element => heap.read element path
    | none => none

section Reading

variable {heap heap' : Heap}

theorem bind_getElem?_congr {α β γ : Type} {f : α → Option γ} {g : β → Option γ} {xs : List α}
    {ys : List β} (h : List.Forall₂ (fun a b => g b = f a) xs ys) (index : Nat) :
    ys[index]?.bind g = xs[index]?.bind f := by
  induction h generalizing index with
  | nil => rfl
  | cons hhead _ ih =>
    cases index with
    | zero => exact hhead
    | succ index => exact ih index

/-- Structs read the same if their elements do, one by one. -/
theorem read_struct_congr {c d : Nat}
    (h : List.Forall₂ (fun a b => heap'.read b = heap.read a) (heap.elements c)
      (heap'.elements d)) :
    heap'.read (.container ⟨.struct, d⟩) = heap.read (.container ⟨.struct, c⟩) := by
  funext path
  cases path with
  | nil =>
    have hlength : heap.length c = heap'.length d := h.length_eq
    show some (Sight.struct (heap'.length d)) = some (Sight.struct (heap.length c))
    rw [hlength]
  | cons index path =>
    show (heap'.element? d index).bind _ = (heap.element? c index).bind _
    rw [← getElem?_elements, ← getElem?_elements]
    exact bind_getElem?_congr (h.imp fun a b hread => congrFun hread path) index

theorem read_of_other (heap heap' : Heap) {item : Item} (h : item.structCell? = none) :
    heap'.read item = heap.read item := by
  funext path
  cases path with
  | nil => simp only [read, sight, h]
  | cons index path => simp only [read, h]

/-- **What is read depends on the cells that can be reached, and on no others.** The cells in `P`
contain structs in `P` only. -/
theorem read_congr {P : Nat → Prop} (hsame : ∀ c, P c → heap'.elements c = heap.elements c)
    (hclosed : ∀ c, P c → ∀ d ∈ heap.nested c, P d) {item : Item}
    (hitem : ∀ c, item.structCell? = some c → P c) : heap'.read item = heap.read item := by
  funext path
  induction path generalizing item with
  | nil =>
    cases hcell : item.structCell? with
    | none => rw [read_of_other heap heap' hcell]
    | some c =>
      have hlength : heap'.length c = heap.length c :=
        congrArg List.length (hsame c (hitem c hcell))
      simp only [read, sight, hcell, hlength]
  | cons index path ih =>
    cases hcell : item.structCell? with
    | none => rw [read_of_other heap heap' hcell]
    | some c =>
      have hc := hitem c hcell
      simp only [read, hcell]
      rw [← getElem?_elements, ← getElem?_elements, hsame c hc]
      refine Option.bind_congr fun element helement => ih fun d hd => hclosed c hc d ?_
      exact List.mem_filterMap.mpr ⟨element, List.mem_of_getElem? helement, hd⟩

/-- Cells outside are not seen through a struct. -/
theorem Closed.read_eq {bound : Nat} (hb : heap.Closed bound) {heap' : Heap}
    (hsame : ∀ c < bound, heap'.elements c = heap.elements c) {cell : Nat} (hcell : cell < bound) :
    heap'.read (.container ⟨.struct, cell⟩) = heap.read (.container ⟨.struct, cell⟩) := by
  refine read_congr hsame hb.2 fun c hc => ?_
  obtain rfl : cell = c := Option.some.inj hc
  exact hcell

end Reading

/-! ### Copies and their sources -/

/-- One item takes the place of another: a struct that of the struct it is paired with, and anything
else its own. -/
def Renamed (pairs : List (Nat × Nat)) (a b : Item) : Prop :=
  (a.structCell? = none ∧ b = a) ∨
    ∃ p ∈ pairs, a = .container ⟨.struct, p.1⟩ ∧ b = .container ⟨.struct, p.2⟩

theorem Renamed.mono {pairs pairs' : List (Nat × Nat)} (hsub : ∀ p ∈ pairs, p ∈ pairs') {a b : Item}
    (h : Renamed pairs a b) : Renamed pairs' a b :=
  h.imp_right fun ⟨p, hp, hab⟩ => ⟨p, hsub p hp, hab⟩

/-- Cells with the numbers from `next` on. -/
def numbered (next : Nat) (cells : List Nat) : List (Nat × Nat) :=
  cells.zip (List.range' next cells.length)

theorem numbered_cons (next cell : Nat) (cells : List Nat) :
    numbered next (cell :: cells) = (cell, next) :: numbered (next + 1) cells := rfl

theorem numbered_append (next : Nat) (cells cells' : List Nat) :
    numbered next (cells ++ cells') =
      numbered next cells ++ numbered (next + cells.length) cells' := by
  induction cells generalizing next with
  | nil => rfl
  | cons cell cells ih =>
    rw [List.cons_append, numbered_cons, ih, numbered_cons, List.cons_append, List.length_cons,
      Nat.add_right_comm, Nat.add_assoc]

theorem map_snd_numbered (next : Nat) (cells : List Nat) :
    (numbered next cells).map Prod.snd = List.range' next cells.length :=
  List.map_snd_zip (by simp)

theorem of_mem_numbered {next : Nat} {cells : List Nat} {p : Nat × Nat}
    (h : p ∈ numbered next cells) : p.1 ∈ cells ∧ next ≤ p.2 ∧ p.2 < next + cells.length := by
  obtain ⟨hcell, hnumber⟩ := List.of_mem_zip h
  exact ⟨hcell, List.mem_range'_1.mp hnumber⟩

/-- Renumbering takes the structs in turn. -/
theorem forall₂_renamed_renumber (next : Nat) (items : List Item) :
    List.Forall₂ (Renamed (numbered next (structCells items))) items (renumber next items) := by
  induction items generalizing next with
  | nil => exact .nil
  | cons item items ih =>
    cases h : item.structCell? with
    | none =>
      rw [renumber_cons_other next items h, structCells, List.filterMap_cons_none h]
      exact .cons (.inl ⟨h, rfl⟩) (ih next)
    | some cell =>
      rw [renumber_cons_struct next items h, structCells, List.filterMap_cons_some h, numbered_cons]
      refine .cons (.inr ⟨(cell, next), List.mem_cons_self, ?_, rfl⟩) ?_
      · exact Item.structCell?_eq_some_iff.mp h
      · exact (ih (next + 1)).imp fun a b hab => hab.mono fun p hp => List.mem_cons_of_mem _ hp

/-- **The copies of a level are their sources with the structs inside renamed**, to the copies of
the next level. -/
theorem forall₂_renamed_appendCopies (heap : Heap) (next : Nat) {sources : List Nat}
    (h : ∀ source ∈ sources, source < heap.size) :
    ∀ p ∈ numbered heap.size sources,
      List.Forall₂ (Renamed (numbered next (sources.flatMap heap.nested))) (heap.elements p.1)
        ((heap.appendCopies next sources).elements p.2) := by
  induction sources generalizing heap next with
  | nil => exact fun p hp => absurd hp List.not_mem_nil
  | cons source sources ih =>
    have hsources : ∀ s ∈ sources, s < heap.size := fun s hs => h s (List.mem_cons_of_mem _ hs)
    let copied := heap.append (renumber next (heap.elements source)).toArray
    have hsize : copied.size = heap.size + 1 := size_append ..
    have hpairs : numbered next ((source :: sources).flatMap heap.nested) =
        numbered next (heap.nested source) ++
          numbered (next + (heap.nested source).length) (sources.flatMap heap.nested) := by
      rw [List.flatMap_cons, numbered_append]
    intro p hp
    rw [numbered_cons, List.mem_cons] at hp
    rw [hpairs]
    rcases hp with rfl | hp
    · have hcopy : (heap.appendCopies next (source :: sources)).elements heap.size =
          renumber next (heap.elements source) := by
        rw [appendCopies, elements_appendCopies_of_lt _ _ _ (by rw [size_append]; omega),
          elements_append_size, List.toList_toArray]
      rw [hcopy]
      refine (forall₂_renamed_renumber next (heap.elements source)).imp fun a b hab => ?_
      exact hab.mono fun p hp => List.mem_append_left _ hp
    · have hsame : sources.flatMap copied.nested = sources.flatMap heap.nested := by
        refine List.flatMap_congr fun s hs => ?_
        exact nested_append_of_lt heap _ (hsources s hs)
      have hsource : p.1 < heap.size := hsources _ (List.of_mem_zip hp).1
      have hrest := ih copied (next + (heap.nested source).length)
        (fun s hs => by rw [hsize]; exact Nat.lt_succ_of_lt (hsources s hs)) p (by rwa [hsize])
      rw [hsame, elements_append_of_lt heap _ hsource] at hrest
      exact hrest.imp fun a b hab => hab.mono fun p hp => List.mem_append_right _ hp

/-- **A copy reads like its source.** -/
theorem CopiesTo.read_eq {heap final : Heap} {sources : List Nat} {bound : Nat}
    (h : CopiesTo heap sources final) (hb : heap.Closed bound) (hs : ∀ s ∈ sources, s < bound) :
    ∀ p ∈ numbered heap.size sources,
      final.read (.container ⟨.struct, p.2⟩) = final.read (.container ⟨.struct, p.1⟩) := by
  induction h with
  | done heap => exact fun p hp => absurd hp List.not_mem_nil
  | @level heap final sources hne hrest ih =>
    intro p hp
    obtain ⟨hsource, hcopy⟩ := List.of_mem_zip hp
    have hsize := size_appendCopies heap (heap.size + sources.length) sources
    have hinner := ih (hb.appendCopies _ sources) (hb.flatMap_nested hs)
    rw [hsize] at hinner
    have hlevel := forall₂_renamed_appendCopies heap (heap.size + sources.length)
      (fun s h => (hs s h).trans_le hb.1) p hp
    have hlt : p.1 < heap.size := (hs _ hsource).trans_le hb.1
    have hlt' := (List.mem_range'_1.mp hcopy).2
    rw [← elements_appendCopies_of_lt heap _ sources hlt,
      ← hrest.elements_eq (by rw [hsize]; omega), ← hrest.elements_eq (by rwa [hsize])] at hlevel
    refine read_struct_congr (hlevel.imp fun a b hab => ?_)
    rcases hab with ⟨-, rfl⟩ | ⟨q, hq, rfl, rfl⟩
    · rfl
    · exact hinner q hq

end StackScript.Heap
