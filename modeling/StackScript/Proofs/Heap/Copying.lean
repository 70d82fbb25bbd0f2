import StackScript.Heap
import Mathlib.Data.List.Nodup
import Mathlib.Data.List.Range

/-!
# Copying structs

`Heap.copy` appends the copies of a struct level by level and stops after as many levels as there
are cells. `CopiesTo` is the same loop without that bound: it relates a heap and the cells to be
copied to the heap in which nothing is left to copy, and holds only if the loop ends.

Main statement: the loop only appends (`CopiesTo.grows`). The cells that were there stay as they
are; a new cell contains structs with greater numbers only, so new cells alone; every new struct
stands in one slot; and all other elements of new cells stand in old cells too. The key is an
equation: the structs in the cells of a level, read in order, are the numbers of the next level
(`flatMap_nested_appendCopies`).
-/

namespace StackScript.Heap

/-! ### Cells -/

@[simp] theorem size_append (heap : Heap) (items : Array Item) :
    (heap.append items).size = heap.size + 1 := by
  simp [append, size]

theorem elements_of_le {heap : Heap} {cell : Nat} (h : heap.size ≤ cell) :
    heap.elements cell = [] := by
  have hnone : heap.cells[cell]? = none := Array.getElem?_eq_none h
  simp [elements, Array.getD_eq_getD_getElem?, hnone]

theorem lt_size_of_mem_elements {heap : Heap} {cell : Nat} {item : Item}
    (h : item ∈ heap.elements cell) : cell < heap.size := by
  by_contra hle
  rw [elements_of_le (Nat.le_of_not_lt hle)] at h
  cases h

theorem elements_append_of_lt (heap : Heap) (items : Array Item) {cell : Nat}
    (h : cell < heap.size) : (heap.append items).elements cell = heap.elements cell := by
  have hpush : (heap.cells.push items)[cell]? = heap.cells[cell]? := by
    rw [Array.getElem?_push_lt h, Array.getElem?_eq_getElem h]
  simp [append, elements, Array.getD_eq_getD_getElem?, hpush]

@[simp] theorem elements_append_size (heap : Heap) (items : Array Item) :
    (heap.append items).elements heap.size = items.toList := by
  simp [append, elements, size, Array.getD_eq_getD_getElem?]

theorem nested_append_of_lt (heap : Heap) (items : Array Item) {cell : Nat}
    (h : cell < heap.size) : (heap.append items).nested cell = heap.nested cell := by
  rw [nested, nested, elements_append_of_lt heap items h]

/-- The cell of the struct that stands in a slot. -/
def structAt? (heap : Heap) (cell index : Nat) : Option Nat :=
  (heap.element? cell index).bind Item.structCell?

theorem structAt?_eq_some_iff {heap : Heap} {cell index inner : Nat} :
    heap.structAt? cell index = some inner ↔
      ∃ item, (heap.elements cell)[index]? = some item ∧ item.structCell? = some inner := by
  rw [structAt?, Option.bind_eq_some_iff, getElem?_elements]

theorem mem_nested_of_structAt? {heap : Heap} {cell index inner : Nat}
    (h : heap.structAt? cell index = some inner) : inner ∈ heap.nested cell := by
  obtain ⟨item, hitem, hinner⟩ := structAt?_eq_some_iff.mp h
  exact List.mem_filterMap.mpr ⟨item, List.mem_of_getElem? hitem, hinner⟩

/-- An image without repetitions comes from one place only. -/
theorem eq_of_nodup_filterMap {items : List Item} (h : (structCells items).Nodup) {i j cell : Nat}
    {a b : Item} (ha : items[i]? = some a) (hb : items[j]? = some b)
    (hca : a.structCell? = some cell) (hcb : b.structCell? = some cell) : i = j := by
  induction items generalizing i j with
  | nil => simp at ha
  | cons item items ih =>
    have mem : ∀ {k : Nat} {x : Item}, items[k]? = some x → x.structCell? = some cell →
        cell ∈ structCells items := fun hx hc =>
      List.mem_filterMap.mpr ⟨_, List.mem_of_getElem? hx, hc⟩
    have htail : (structCells items).Nodup := by
      refine h.sublist ?_
      exact (List.sublist_cons_self item items).filterMap _
    have hhead : item.structCell? = some cell → cell ∉ structCells items := by
      intro hc hmem
      simp only [structCells, List.filterMap_cons_some hc, List.nodup_cons] at h
      exact h.1 hmem
    cases i with
    | zero =>
      cases j with
      | zero => rfl
      | succ j =>
        simp only [List.getElem?_cons_zero, Option.some.injEq] at ha
        subst ha
        exact absurd (mem (by simpa using hb) hcb) (hhead hca)
    | succ i =>
      cases j with
      | zero =>
        simp only [List.getElem?_cons_zero, Option.some.injEq] at hb
        subst hb
        exact absurd (mem (by simpa using ha) hca) (hhead hcb)
      | succ j =>
        exact congrArg (· + 1) (ih htail (by simpa using ha) (by simpa using hb))

/-- If the structs in some cells, read in order, have no repetitions, each stands in one slot. -/
theorem slot_unique_of_nodup (heap : Heap) (cells : List Nat)
    (h : (cells.flatMap heap.nested).Nodup) {c d d' i i' : Nat} (hd : d ∈ cells) (hd' : d' ∈ cells)
    (hc : heap.structAt? d i = some c) (hc' : heap.structAt? d' i' = some c) : d = d' ∧ i = i' := by
  rw [List.nodup_flatMap] at h
  obtain ⟨hinner, hdisjoint⟩ := h
  have hcell : d = d' := by
    by_contra hne
    have : Std.Symm (Function.onFun List.Disjoint heap.nested) := ⟨fun _ _ h => List.disjoint_symm h⟩
    exact hdisjoint.forall hd hd' hne (mem_nested_of_structAt? hc) (mem_nested_of_structAt? hc')
  subst hcell
  obtain ⟨a, ha, hca⟩ := structAt?_eq_some_iff.mp hc
  obtain ⟨b, hb, hcb⟩ := structAt?_eq_some_iff.mp hc'
  exact ⟨rfl, eq_of_nodup_filterMap (hinner d hd) ha hb hca hcb⟩

/-! ### One level -/

theorem renumberOnto_eq (done : List Item) (next : Nat) (items : List Item) :
    renumberOnto done next items = renumberOnto [] next items ++ done := by
  induction items generalizing done next with
  | nil => rfl
  | cons item items ih =>
    rw [renumberOnto, renumberOnto]
    split
    · rw [ih (_ :: done), ih [_], List.append_assoc, List.singleton_append]
    · rw [ih (_ :: done), ih [_], List.append_assoc, List.singleton_append]

@[simp] theorem renumber_nil (next : Nat) : renumber next [] = [] := rfl

theorem renumber_cons_struct (next : Nat) {item : Item} {cell : Nat} (items : List Item)
    (h : item.structCell? = some cell) :
    renumber next (item :: items) = .container ⟨.struct, next⟩ :: renumber (next + 1) items := by
  simp only [renumber, renumberOnto, h]
  rw [renumberOnto_eq]
  simp

theorem renumber_cons_other (next : Nat) {item : Item} (items : List Item)
    (h : item.structCell? = none) : renumber next (item :: items) = item :: renumber next items := by
  simp only [renumber, renumberOnto, h]
  rw [renumberOnto_eq]
  simp

/-- Renumbered structs have consecutive numbers. -/
theorem structCells_renumber (next : Nat) (items : List Item) :
    structCells (renumber next items) = List.range' next (structCells items).length := by
  induction items generalizing next with
  | nil => rfl
  | cons item items ih =>
    cases h : item.structCell? with
    | none =>
      simp only [renumber_cons_other next items h, structCells, List.filterMap_cons_none h]
      exact ih next
    | some cell =>
      simp only [renumber_cons_struct next items h, structCells, List.filterMap_cons_some h,
        List.filterMap_cons_some (show (Item.container ⟨.struct, next⟩).structCell? = some next from rfl),
        List.length_cons, List.range'_succ]
      exact congrArg (next :: ·) (ih (next + 1))

/-- What is no struct is not touched by renumbering. -/
theorem mem_of_mem_renumber {next : Nat} {items : List Item} {item : Item}
    (h : item ∈ renumber next items) (hitem : item.structCell? = none) : item ∈ items := by
  induction items generalizing next with
  | nil => exact h
  | cons first items ih =>
    cases hfirst : first.structCell? with
    | none =>
      rw [renumber_cons_other next items hfirst] at h
      rcases List.mem_cons.mp h with rfl | h
      · exact List.mem_cons_self
      · exact List.mem_cons_of_mem _ (ih h)
    | some cell =>
      rw [renumber_cons_struct next items hfirst] at h
      rcases List.mem_cons.mp h with rfl | h
      · cases hitem
      · exact List.mem_cons_of_mem _ (ih h)

@[simp] theorem size_appendCopies (heap : Heap) (next : Nat) (sources : List Nat) :
    (heap.appendCopies next sources).size = heap.size + sources.length := by
  induction sources generalizing heap next with
  | nil => rfl
  | cons source sources ih =>
    rw [appendCopies, ih, size_append, List.length_cons]
    omega

theorem elements_appendCopies_of_lt (heap : Heap) (next : Nat) (sources : List Nat) {cell : Nat}
    (h : cell < heap.size) : (heap.appendCopies next sources).elements cell = heap.elements cell := by
  induction sources generalizing heap next with
  | nil => rfl
  | cons source sources ih =>
    have hlt : cell < (heap.append (renumber next (heap.elements source)).toArray).size := by
      rw [size_append]
      omega
    rw [appendCopies, ih _ _ hlt, elements_append_of_lt heap _ h]

theorem nested_appendCopies_of_lt (heap : Heap) (next : Nat) (sources : List Nat) {cell : Nat}
    (h : cell < heap.size) : (heap.appendCopies next sources).nested cell = heap.nested cell := by
  rw [nested, nested, elements_appendCopies_of_lt heap next sources h]

/-- The structs in the copies of a level, read in order, are numbered from `next` on. -/
theorem flatMap_nested_appendCopies (heap : Heap) (next : Nat) {sources : List Nat}
    (h : ∀ source ∈ sources, source < heap.size) :
    (List.range' heap.size sources.length).flatMap (heap.appendCopies next sources).nested =
      List.range' next (sources.flatMap heap.nested).length := by
  induction sources generalizing heap next with
  | nil => rfl
  | cons source sources ih =>
    have hsources : ∀ s ∈ sources, s < heap.size := fun s hs => h s (List.mem_cons_of_mem _ hs)
    let copied := heap.append (renumber next (heap.elements source)).toArray
    have hsize : copied.size = heap.size + 1 := size_append ..
    have hhead : (heap.appendCopies next (source :: sources)).nested heap.size =
        List.range' next (heap.nested source).length := by
      rw [appendCopies, nested_appendCopies_of_lt _ _ _ (by rw [size_append]; omega), nested,
        elements_append_size, List.toList_toArray, structCells_renumber]
      rfl
    have hsame : sources.flatMap copied.nested = sources.flatMap heap.nested := by
      refine List.flatMap_congr fun s hs => ?_
      exact nested_append_of_lt heap _ (hsources s hs)
    have htail := ih copied (next + (heap.nested source).length) fun s hs => by
      rw [hsize]
      exact Nat.lt_succ_of_lt (hsources s hs)
    rw [hsize, hsame] at htail
    rw [List.length_cons, List.range'_succ, List.flatMap_cons, hhead, List.flatMap_cons,
      List.length_append, ← List.range'_append_1]
    exact congrArg _ htail

/-- What stands in a copy and is no struct stands in a source. -/
theorem mem_source_of_mem_appendCopies (heap : Heap) (next : Nat) {cell : Nat} {sources : List Nat}
    (h : ∀ source ∈ sources, source < heap.size) {item : Item} (hcell : heap.size ≤ cell)
    (hmem : item ∈ (heap.appendCopies next sources).elements cell)
    (hitem : item.structCell? = none) : ∃ source ∈ sources, item ∈ heap.elements source := by
  induction sources generalizing heap next with
  | nil =>
    rw [appendCopies, elements_of_le hcell] at hmem
    cases hmem
  | cons source sources ih =>
    have hsources : ∀ s ∈ sources, s < heap.size := fun s hs => h s (List.mem_cons_of_mem _ hs)
    rw [appendCopies] at hmem
    by_cases hlast : cell = heap.size
    · subst hlast
      rw [elements_appendCopies_of_lt _ _ _ (by rw [size_append]; omega), elements_append_size,
        List.toList_toArray] at hmem
      exact ⟨source, List.mem_cons_self, mem_of_mem_renumber hmem hitem⟩
    · obtain ⟨s, hs, hitem'⟩ := ih (heap.append (renumber next (heap.elements source)).toArray) _
        (fun s hs => by rw [size_append]; exact Nat.lt_succ_of_lt (hsources s hs))
        (by rw [size_append]; omega) hmem
      rw [elements_append_of_lt heap _ (hsources s hs)] at hitem'
      exact ⟨s, List.mem_cons_of_mem _ hs, hitem'⟩

/-! ### All levels -/

/-- The cells below `bound` exist and contain structs below `bound` only. -/
def Closed (heap : Heap) (bound : Nat) : Prop :=
  bound ≤ heap.size ∧ ∀ c < bound, ∀ d ∈ heap.nested c, d < bound

theorem Closed.appendCopies {heap : Heap} {bound : Nat} (h : heap.Closed bound) (next : Nat)
    (sources : List Nat) : (heap.appendCopies next sources).Closed bound := by
  refine ⟨?_, fun c hc d hd => ?_⟩
  · rw [size_appendCopies]
    exact h.1.trans (Nat.le_add_right ..)
  · rw [nested_appendCopies_of_lt _ _ _ (hc.trans_le h.1)] at hd
    exact h.2 c hc d hd

theorem Closed.flatMap_nested {heap : Heap} {bound : Nat} (h : heap.Closed bound)
    {sources : List Nat} (hs : ∀ s ∈ sources, s < bound) :
    ∀ s ∈ sources.flatMap heap.nested, s < bound := by
  intro s hmem
  obtain ⟨c, hc, hs'⟩ := List.mem_flatMap.mp hmem
  exact h.2 c (hs c hc) s hs'

/-- Copying cells, then the structs inside them, and so on until none are left, leads from the
first heap to the second. -/
inductive CopiesTo : Heap → List Nat → Heap → Prop where
  /-- Nothing is left to copy. -/
  | done (heap : Heap) : CopiesTo heap [] heap
  /-- The copies of a level are appended, and the structs inside are next. -/
  | level {heap final : Heap} {sources : List Nat} : sources ≠ [] →
      CopiesTo (heap.appendCopies (heap.size + sources.length) sources)
        (sources.flatMap heap.nested) final →
      CopiesTo heap sources final

/-- The second heap has all cells of the first one and new ones. New cells contain new structs
only, each of them in one slot, and otherwise what old cells contain. -/
structure Grows (heap heap' : Heap) : Prop where
  size_le : heap.size ≤ heap'.size
  elements_eq : ∀ c < heap.size, heap'.elements c = heap.elements c
  lt_nested : ∀ c d, heap.size ≤ c → d ∈ heap'.nested c → c < d ∧ d < heap'.size
  slot_unique : ∀ c d d' i i', heap.size ≤ d → heap.size ≤ d' →
    heap'.structAt? d i = some c → heap'.structAt? d' i' = some c → d = d' ∧ i = i'
  others : ∀ c, heap.size ≤ c → ∀ item ∈ heap'.elements c, item.structCell? = none →
    ∃ c₀, item ∈ heap.elements c₀

namespace Grows

theorem refl (heap : Heap) : heap.Grows heap where
  size_le := le_rfl
  elements_eq _ _ := rfl
  lt_nested c d hc hd := by simp [nested, elements_of_le hc, structCells] at hd
  slot_unique c d d' i i' hd _ hc _ := by
    have := mem_nested_of_structAt? hc
    simp [nested, elements_of_le hd, structCells] at this
  others c hc item hitem _ := by simp [elements_of_le hc] at hitem

variable {heap heap' heap'' : Heap}

theorem nested_eq (h : heap.Grows heap') {c : Nat} (hc : c < heap.size) :
    heap'.nested c = heap.nested c := by
  rw [nested, nested, h.elements_eq c hc]

theorem structAt?_eq (h : heap.Grows heap') {c : Nat} (hc : c < heap.size) (i : Nat) :
    heap'.structAt? c i = heap.structAt? c i := by
  rw [structAt?, structAt?, ← getElem?_elements, ← getElem?_elements, h.elements_eq c hc]

theorem trans (h : heap.Grows heap') (h' : heap'.Grows heap'') : heap.Grows heap'' where
  size_le := h.size_le.trans h'.size_le
  elements_eq c hc := by
    rw [h'.elements_eq c (hc.trans_le h.size_le), h.elements_eq c hc]
  lt_nested c d hc hd := by
    by_cases hlt : c < heap'.size
    · rw [h'.nested_eq hlt] at hd
      obtain ⟨h1, h2⟩ := h.lt_nested c d hc hd
      exact ⟨h1, h2.trans_le h'.size_le⟩
    · exact h'.lt_nested c d (Nat.le_of_not_lt hlt) hd
  slot_unique c d d' i i' hd hd' hc hc' := by
    -- structs in cells of the first growth have smaller numbers than those of the second
    have early : ∀ d i, heap.size ≤ d → d < heap'.size → heap''.structAt? d i = some c →
        heap'.structAt? d i = some c ∧ c < heap'.size := by
      intro d i hd hlt hc
      rw [h'.structAt?_eq hlt] at hc
      exact ⟨hc, (h.lt_nested d c hd (mem_nested_of_structAt? hc)).2⟩
    have late : ∀ d i, heap'.size ≤ d → heap''.structAt? d i = some c → heap'.size ≤ c := by
      intro d i hd hc
      exact (hd.trans_lt (h'.lt_nested d c hd (mem_nested_of_structAt? hc)).1).le
    by_cases hlt : d < heap'.size <;> by_cases hlt' : d' < heap'.size
    · exact h.slot_unique c d d' i i' hd hd' (early d i hd hlt hc).1 (early d' i' hd' hlt' hc').1
    · have h1 := (early d i hd hlt hc).2
      have h2 := late d' i' (Nat.le_of_not_lt hlt') hc'
      omega
    · have h1 := (early d' i' hd' hlt' hc').2
      have h2 := late d i (Nat.le_of_not_lt hlt) hc
      omega
    · exact h'.slot_unique c d d' i i' (Nat.le_of_not_lt hlt) (Nat.le_of_not_lt hlt') hc hc'
  others c hc item hitem hother := by
    have old : ∀ c₀, item ∈ heap'.elements c₀ → ∃ c₁, item ∈ heap.elements c₁ := by
      intro c₀ hmem
      by_cases hlt : c₀ < heap.size
      · exact ⟨c₀, h.elements_eq c₀ hlt ▸ hmem⟩
      · exact h.others c₀ (Nat.le_of_not_lt hlt) item hmem hother
    by_cases hlt : c < heap'.size
    · exact old c (h'.elements_eq c hlt ▸ hitem)
    · obtain ⟨c₀, hmem⟩ := h'.others c (Nat.le_of_not_lt hlt) item hitem hother
      exact old c₀ hmem

end Grows

namespace CopiesTo

variable {heap final : Heap} {sources : List Nat} {bound : Nat}

theorem size_le (h : CopiesTo heap sources final) : heap.size + sources.length ≤ final.size := by
  induction h with
  | done heap => exact le_rfl
  | level _ _ ih =>
    rw [size_appendCopies] at ih
    exact (Nat.le_add_right ..).trans ih

theorem elements_eq (h : CopiesTo heap sources final) {c : Nat} (hc : c < heap.size) :
    final.elements c = heap.elements c := by
  induction h with
  | done heap => rfl
  | level _ _ ih =>
    rw [ih (by rw [size_appendCopies]; omega), elements_appendCopies_of_lt _ _ _ hc]

theorem nested_eq (h : CopiesTo heap sources final) {c : Nat} (hc : c < heap.size) :
    final.nested c = heap.nested c := by
  rw [nested, nested, h.elements_eq hc]

/-- The structs in all new cells, read in order, are the new cells behind the copies of the
sources. -/
theorem flatMap_nested (h : CopiesTo heap sources final) (hb : heap.Closed bound)
    (hs : ∀ s ∈ sources, s < bound) :
    (List.range' heap.size (final.size - heap.size)).flatMap final.nested =
      List.range' (heap.size + sources.length) (final.size - (heap.size + sources.length)) := by
  induction h with
  | done heap => simp
  | @level heap final sources hne hrest ih =>
    let next := heap.size + sources.length
    let inner := sources.flatMap heap.nested
    have hsize : (heap.appendCopies next sources).size = next := size_appendCopies ..
    have hle : next + inner.length ≤ final.size := by
      have := hrest.size_le
      rwa [hsize] at this
    have hfirst : (List.range' heap.size sources.length).flatMap final.nested =
        List.range' next inner.length := by
      rw [← flatMap_nested_appendCopies heap next fun s h => (hs s h).trans_le hb.1]
      refine List.flatMap_congr fun c hc => ?_
      have hlt := (List.mem_range'_1.mp hc).2
      exact hrest.nested_eq (hsize.symm ▸ hlt)
    have hsecond := ih (hb.appendCopies next sources) (hb.flatMap_nested hs)
    rw [hsize] at hsecond
    have hcount : final.size - heap.size = sources.length + (final.size - next) := by omega
    have hcount' : final.size - next = inner.length + (final.size - (next + inner.length)) := by
      omega
    rw [hcount, ← List.range'_append_1, List.flatMap_append, hfirst]
    conv_rhs => rw [show final.size - (heap.size + sources.length) = final.size - next from rfl,
      hcount', ← List.range'_append_1]
    exact congrArg _ hsecond

/-- A new cell contains structs of later levels only. -/
theorem lt_nested (h : CopiesTo heap sources final) (hb : heap.Closed bound)
    (hs : ∀ s ∈ sources, s < bound) {c d : Nat} (hc : heap.size ≤ c) (hd : d ∈ final.nested c) :
    c < d := by
  induction h with
  | done heap => simp [nested, elements_of_le hc, structCells] at hd
  | @level heap final sources hne hrest ih =>
    by_cases hlt : c < heap.size + sources.length
    · have hmem : d ∈ List.range' (heap.size + sources.length) (sources.flatMap heap.nested).length := by
        rw [← flatMap_nested_appendCopies heap _ fun s h => (hs s h).trans_le hb.1]
        refine List.mem_flatMap.mpr ⟨c, List.mem_range'_1.mpr ⟨hc, hlt⟩, ?_⟩
        rwa [← hrest.nested_eq (by rwa [size_appendCopies])]
      exact hlt.trans_le (List.mem_range'_1.mp hmem).1
    · exact ih (hb.appendCopies _ sources) (hb.flatMap_nested hs)
        (by rw [size_appendCopies]; omega) hd

/-- What stands in a new cell and is no struct stands in an old cell. -/
theorem others (h : CopiesTo heap sources final) (hb : heap.Closed bound)
    (hs : ∀ s ∈ sources, s < bound) {c : Nat} {item : Item} (hc : heap.size ≤ c)
    (hitem : item ∈ final.elements c) (hother : item.structCell? = none) :
    ∃ c₀ < bound, item ∈ heap.elements c₀ := by
  induction h with
  | done heap => simp [elements_of_le hc] at hitem
  | @level heap final sources hne hrest ih =>
    by_cases hlt : c < heap.size + sources.length
    · rw [hrest.elements_eq (by rwa [size_appendCopies])] at hitem
      obtain ⟨s, hmem, hitem⟩ := mem_source_of_mem_appendCopies heap _
        (fun s h => (hs s h).trans_le hb.1) hc hitem hother
      exact ⟨s, hs s hmem, hitem⟩
    · obtain ⟨c₀, hc₀, hitem⟩ := ih (hb.appendCopies _ sources) (hb.flatMap_nested hs)
        (by rw [size_appendCopies]; omega) hitem
      rw [elements_appendCopies_of_lt _ _ _ (hc₀.trans_le hb.1)] at hitem
      exact ⟨c₀, hc₀, hitem⟩

/-- **Copying only appends**, and what it appends is made of new structs and old elements. -/
theorem grows (h : CopiesTo heap sources final) (hb : heap.Closed heap.size)
    (hs : ∀ s ∈ sources, s < heap.size) : heap.Grows final := by
  have hnumbers := h.flatMap_nested hb hs
  have hsize := (Nat.le_add_right ..).trans h.size_le
  have hfresh : ∀ c d, heap.size ≤ c → d ∈ final.nested c →
      c ∈ List.range' heap.size (final.size - heap.size) := by
    intro c d hc hd
    obtain ⟨item, hitem, -⟩ := List.mem_filterMap.mp hd
    have := lt_size_of_mem_elements hitem
    exact List.mem_range'_1.mpr ⟨hc, by omega⟩
  refine ⟨hsize, fun c hc => h.elements_eq hc, fun c d hc hd => ⟨h.lt_nested hb hs hc hd, ?_⟩, ?_, ?_⟩
  · have hmem : d ∈ (List.range' heap.size (final.size - heap.size)).flatMap final.nested :=
      List.mem_flatMap.mpr ⟨c, hfresh c d hc hd, hd⟩
    rw [hnumbers] at hmem
    have := (List.mem_range'_1.mp hmem).2
    have := h.size_le
    omega
  · intro c d d' i i' hd hd' hc hc'
    refine slot_unique_of_nodup final _ (hnumbers ▸ List.nodup_range') ?_ ?_ hc hc'
    · exact hfresh d c hd (mem_nested_of_structAt? hc)
    · exact hfresh d' c hd' (mem_nested_of_structAt? hc')
  · intro c hc item hitem hother
    obtain ⟨c₀, -, hmem⟩ := h.others hb hs hc hitem hother
    exact ⟨c₀, hmem⟩

end CopiesTo

end StackScript.Heap
