import StackScript.Proofs.Heap.Reading
import Mathlib.Order.Interval.Finset.Nat

/-!
# Copies up to numbering

A copy of a struct is a tree of new cells: each of them is at the end of one path from the root, and
of one only (`IsCopy.exists_path`, `IsCopy.path_unique`). Two copies of a struct have the same
paths, since both read like the struct. So the cells at the ends of equal paths can be paired, and
one heap becomes the other when its cells are given the numbers of their partners.

Main statement: `IsCopy.exists_renumbers`, two copies of a struct are the same up to the numbers of
their cells.
-/

namespace StackScript

/-- An item in a heap whose structs have new numbers. -/
def Item.renumbered (σ : Nat → Nat) (item : Item) : Item :=
  match item.structCell? with
  | some cell => .container ⟨.struct, σ cell⟩
  | none => item

theorem Item.renumbered_eq_self {σ : Nat → Nat} {item : Item}
    (h : ∀ cell, item.structCell? = some cell → σ cell = cell) : item.renumbered σ = item := by
  cases hcell : item.structCell? with
  | none => simp only [Item.renumbered, hcell]
  | some cell =>
    simp only [Item.renumbered, hcell, h cell hcell]
    exact (Item.structCell?_eq_some_iff.mp hcell).symm

namespace Heap

/-! ### Paths through structs -/

/-- The struct at the end of a path that leads from a struct through elements that are structs. -/
def pathEnd? (heap : Heap) : (cell : Nat) → (path : List Nat) → Option Nat
  | cell, [] => some cell
  | cell, index :: path => (heap.structAt? cell index).bind fun inner => heap.pathEnd? inner path

section Paths

variable {heap : Heap} {c d : Nat} {path : List Nat}

theorem pathEnd?_append (heap : Heap) (c : Nat) (path path' : List Nat) :
    heap.pathEnd? c (path ++ path') =
      (heap.pathEnd? c path).bind fun d => heap.pathEnd? d path' := by
  induction path generalizing c with
  | nil => rfl
  | cons index path ih =>
    simp only [List.cons_append, pathEnd?, Option.bind_assoc]
    exact Option.bind_congr fun inner _ => ih inner

theorem pathEnd?_concat_eq_some_iff {index : Nat} : heap.pathEnd? c (path ++ [index]) = some d ↔
    ∃ inner, heap.pathEnd? c path = some inner ∧ heap.structAt? inner index = some d := by
  simp [pathEnd?_append, pathEnd?, Option.bind_eq_some_iff]

theorem element?_of_structAt? {index : Nat} (h : heap.structAt? c index = some d) :
    heap.element? c index = some (.container ⟨.struct, d⟩) := by
  obtain ⟨item, hitem, hcell⟩ := structAt?_eq_some_iff.mp h
  rw [getElem?_elements] at hitem
  rw [hitem, Item.structCell?_eq_some_iff.mp hcell]

theorem exists_structAt?_of_mem_nested (h : d ∈ heap.nested c) :
    ∃ index, heap.structAt? c index = some d := by
  obtain ⟨item, hitem, hcell⟩ := List.mem_filterMap.mp h
  obtain ⟨index, hindex⟩ := List.mem_iff_getElem?.mp hitem
  exact ⟨index, structAt?_eq_some_iff.mpr ⟨item, hindex, hcell⟩⟩

theorem eq_of_sight_eq {heap heap' : Heap} {item item' : Item} (hitem : item.structCell? = none)
    (h : heap'.sight item' = heap.sight item) : item' = item := by
  cases hitem' : item'.structCell? with
  | none => simpa only [sight, hitem, hitem', Sight.other.injEq] using h
  | some cell => simp [sight, hitem, hitem'] at h

theorem exists_structCell?_of_sight_eq {heap heap' : Heap} {item item' : Item} {cell : Nat}
    (hitem : item.structCell? = some cell) (h : heap'.sight item' = heap.sight item) :
    ∃ cell', item'.structCell? = some cell' := by
  cases hitem' : item'.structCell? with
  | none => simp [sight, hitem, hitem'] at h
  | some cell' => exact ⟨cell', rfl⟩

theorem read_element (heap : Heap) (c index : Nat) :
    heap.read (.container ⟨.struct, c⟩) [index] = (heap.element? c index).map heap.sight := by
  show (heap.element? c index).bind _ = _
  cases heap.element? c index <;> rfl

/-- Reading goes on from the struct that a path leads to. -/
theorem read_append_of_pathEnd? (h : heap.pathEnd? c path = some d) (path' : List Nat) :
    heap.read (.container ⟨.struct, c⟩) (path ++ path') =
      heap.read (.container ⟨.struct, d⟩) path' := by
  induction path generalizing c with
  | nil =>
    cases h
    rfl
  | cons index path ih =>
    obtain ⟨inner, hinner, hpath⟩ := Option.bind_eq_some_iff.mp h
    have hread : heap.read (.container ⟨.struct, c⟩) (index :: path ++ path') =
        (heap.element? c index).bind fun element => heap.read element (path ++ path') := rfl
    rw [hread, element?_of_structAt? hinner]
    exact ih hpath

theorem read_of_pathEnd? (h : heap.pathEnd? c path = some d) :
    heap.read (.container ⟨.struct, c⟩) path = some (.struct (heap.length d)) := by
  have hread := read_append_of_pathEnd? h []
  rwa [List.append_nil] at hread

/-- A path at whose end a struct is seen leads to a struct. -/
theorem exists_pathEnd?_of_read {length : Nat}
    (h : heap.read (.container ⟨.struct, c⟩) path = some (.struct length)) :
    ∃ d, heap.pathEnd? c path = some d := by
  induction path generalizing c with
  | nil => exact ⟨c, rfl⟩
  | cons index path ih =>
    obtain ⟨element, helement, hread⟩ := Option.bind_eq_some_iff.mp h
    cases hcell : element.structCell? with
    | none =>
      cases path with
      | nil => simp [read, sight, hcell] at hread
      | cons next path => simp [read, hcell] at hread
    | some inner =>
      rw [Item.structCell?_eq_some_iff.mp hcell] at hread
      obtain ⟨d, hd⟩ := ih hread
      refine ⟨d, Option.bind_eq_some_iff.mpr ⟨inner, ?_, hd⟩⟩
      exact structAt?_eq_some_iff.mpr ⟨element, by rwa [getElem?_elements], hcell⟩

end Paths

/-! ### Copies as trees of new cells -/

/-- Two heaps differ in their cells only. -/
def SameButCells (heap heap' : Heap) : Prop :=
  heap'.objects = heap.objects ∧ heap'.room = heap.room

theorem SameButCells.trans {heap heap' heap'' : Heap} (h : heap.SameButCells heap')
    (h' : heap'.SameButCells heap'') : heap.SameButCells heap'' :=
  ⟨h'.1.trans h.1, h'.2.trans h.2⟩

/-- The new cells of `final` are a copy of the struct `cell` of `heap`. The first one of them is the
root, and the others are inside new cells. -/
structure IsCopy (heap : Heap) (cell : Nat) (final : Heap) : Prop where
  grows : heap.Grows final
  size_lt : heap.size < final.size
  held : ∀ d, heap.size < d → d < final.size → ∃ c i, heap.size ≤ c ∧ final.structAt? c i = some d
  read_eq : final.read (.container ⟨.struct, heap.size⟩) = heap.read (.container ⟨.struct, cell⟩)
  same : heap.SameButCells final

namespace IsCopy

variable {heap final final' : Heap} {cell c c' d : Nat} {path path' : List Nat}

/-- Paths from the root lead to new cells. -/
theorem new_of_pathEnd? (h : heap.IsCopy cell final)
    (hpath : final.pathEnd? heap.size path = some d) : heap.size ≤ d ∧ d < final.size := by
  induction path using List.reverseRecOn generalizing d with
  | nil =>
    cases hpath
    exact ⟨le_rfl, h.size_lt⟩
  | append_singleton path index ih =>
    obtain ⟨inner, hinner, hslot⟩ := pathEnd?_concat_eq_some_iff.mp hpath
    have hnew := (ih hinner).1
    obtain ⟨hlt, hlt'⟩ := h.grows.lt_nested inner d hnew (mem_nested_of_structAt? hslot)
    exact ⟨hnew.trans hlt.le, hlt'⟩

/-- **Every new cell is at the end of a path from the root.** -/
theorem exists_path (h : heap.IsCopy cell final) (hd : heap.size ≤ d) (hlt : d < final.size) :
    ∃ path, final.pathEnd? heap.size path = some d := by
  -- a cell is inside one with a smaller number
  induction d using Nat.strong_induction_on with
  | _ d ih =>
    rcases hd.eq_or_lt with rfl | hd
    · exact ⟨[], rfl⟩
    · obtain ⟨c, index, hc, hslot⟩ := h.held d hd hlt
      have hcd := (h.grows.lt_nested c d hc (mem_nested_of_structAt? hslot)).1
      obtain ⟨path, hpath⟩ := ih c hcd hc (hcd.trans hlt)
      exact ⟨path ++ [index], pathEnd?_concat_eq_some_iff.mpr ⟨c, hpath, hslot⟩⟩

/-- The root is inside no new cell. -/
theorem pathEnd?_concat_ne_root (h : heap.IsCopy cell final) (path : List Nat) (index : Nat) :
    final.pathEnd? heap.size (path ++ [index]) ≠ some heap.size := by
  intro hpath
  obtain ⟨inner, hinner, hslot⟩ := pathEnd?_concat_eq_some_iff.mp hpath
  have hnew := (h.new_of_pathEnd? hinner).1
  have := (h.grows.lt_nested inner _ hnew (mem_nested_of_structAt? hslot)).1
  omega

/-- **No new cell is at the end of two paths.** -/
theorem path_unique (h : heap.IsCopy cell final) (hpath : final.pathEnd? heap.size path = some d)
    (hpath' : final.pathEnd? heap.size path' = some d) : path = path' := by
  induction path using List.reverseRecOn generalizing path' d with
  | nil =>
    cases hpath
    rcases List.eq_nil_or_concat' path' with rfl | ⟨init, index, rfl⟩
    · rfl
    · exact absurd hpath' (h.pathEnd?_concat_ne_root init index)
  | append_singleton path index ih =>
    rcases List.eq_nil_or_concat' path' with rfl | ⟨init, index', rfl⟩
    · cases hpath'
      exact absurd hpath (h.pathEnd?_concat_ne_root path index)
    · obtain ⟨inner, hinner, hslot⟩ := pathEnd?_concat_eq_some_iff.mp hpath
      obtain ⟨inner', hinner', hslot'⟩ := pathEnd?_concat_eq_some_iff.mp hpath'
      obtain ⟨rfl, rfl⟩ := h.grows.slot_unique d inner inner' index index'
        (h.new_of_pathEnd? hinner).1 (h.new_of_pathEnd? hinner').1 hslot hslot'
      rw [ih hinner hinner']

end IsCopy

/-! ### Two copies of a struct -/

/-- Two cells at the ends of the same path, each from the root of its copy. -/
def Paired (heap final final' : Heap) (c c' : Nat) : Prop :=
  ∃ path, final.pathEnd? heap.size path = some c ∧ final'.pathEnd? heap.size path = some c'

theorem Paired.symm {heap final final' : Heap} {c c' : Nat} (h : Paired heap final final' c c') :
    Paired heap final' final c' c :=
  let ⟨path, hc, hc'⟩ := h
  ⟨path, hc', hc⟩

/-- Partners hold partners in the same slots. -/
theorem Paired.inside {heap final final' : Heap} {c c' d d' index : Nat}
    (h : Paired heap final final' c c') (hd : final.structAt? c index = some d)
    (hd' : final'.structAt? c' index = some d') : Paired heap final final' d d' :=
  let ⟨path, hc, hc'⟩ := h
  ⟨path ++ [index], pathEnd?_concat_eq_some_iff.mpr ⟨c, hc, hd⟩,
    pathEnd?_concat_eq_some_iff.mpr ⟨c', hc', hd'⟩⟩

theorem Paired.root (heap final final' : Heap) : Paired heap final final' heap.size heap.size :=
  ⟨[], rfl, rfl⟩

/-- A renumbering of other cells is not seen. -/
theorem Closed.map_renumbered {heap : Heap} {bound c : Nat} (h : heap.Closed bound) {σ : Nat → Nat}
    (hσ : ∀ d < bound, σ d = d) (hc : c < bound) :
    (heap.elements c).map (Item.renumbered σ) = heap.elements c := by
  refine (List.map_congr_left fun item hitem => ?_).trans (List.map_id _)
  refine Item.renumbered_eq_self fun d hd => hσ d (h.2 c hc d ?_)
  exact List.mem_filterMap.mpr ⟨item, hitem, hd⟩

/-- The cells of one heap have new numbers in the other one. -/
structure Renumbers (σ : Nat → Nat) (heap heap' : Heap) : Prop where
  bijective : Function.Bijective σ
  size_eq : heap'.size = heap.size
  elements_eq : ∀ c, heap'.elements (σ c) = (heap.elements c).map (Item.renumbered σ)
  same : heap.SameButCells heap'

namespace IsCopy

variable {heap final final' : Heap} {cell c c' d d' : Nat}

theorem exists_paired (h : heap.IsCopy cell final) (h' : heap.IsCopy cell final')
    (hc : heap.size ≤ c) (hlt : c < final.size) : ∃ c', Paired heap final final' c c' := by
  obtain ⟨path, hpath⟩ := h.exists_path hc hlt
  have hread := read_of_pathEnd? hpath
  rw [h.read_eq, ← h'.read_eq] at hread
  obtain ⟨c', hpath'⟩ := exists_pathEnd?_of_read hread
  exact ⟨c', path, hpath, hpath'⟩

theorem new_of_paired (h : heap.IsCopy cell final) (hpair : Paired heap final final' c c') :
    heap.size ≤ c ∧ c < final.size :=
  let ⟨_, hpath, _⟩ := hpair
  h.new_of_pathEnd? hpath

theorem paired_unique (h : heap.IsCopy cell final) (hd : Paired heap final final' c d)
    (hd' : Paired heap final final' c d') : d = d' := by
  obtain ⟨path, hpath, hend⟩ := hd
  obtain ⟨path', hpath', hend'⟩ := hd'
  obtain rfl := h.path_unique hpath hpath'
  exact Option.some.inj (hend.symm.trans hend')

/-- Partners read alike. -/
theorem read_eq_of_paired (h : heap.IsCopy cell final) (h' : heap.IsCopy cell final')
    (hpair : Paired heap final final' c c') :
    final'.read (.container ⟨.struct, c'⟩) = final.read (.container ⟨.struct, c⟩) := by
  obtain ⟨path, hpath, hpath'⟩ := hpair
  funext rest
  rw [← read_append_of_pathEnd? hpath, ← read_append_of_pathEnd? hpath', h.read_eq, h'.read_eq]

theorem sight_eq_of_paired (h : heap.IsCopy cell final) (h' : heap.IsCopy cell final')
    (hpair : Paired heap final final' c c') (index : Nat) :
    (final'.element? c' index).map final'.sight = (final.element? c index).map final.sight := by
  rw [← read_element, ← read_element, h.read_eq_of_paired h' hpair]

/-- **The elements of partners are the same up to partners.** -/
theorem elements_of_paired (h : heap.IsCopy cell final) (h' : heap.IsCopy cell final')
    (hpair : Paired heap final final' c c') {σ : Nat → Nat}
    (hσ : ∀ d, heap.size ≤ d → d < final.size → Paired heap final final' d (σ d)) :
    final'.elements c' = (final.elements c).map (Item.renumbered σ) := by
  refine List.ext_getElem? fun index => ?_
  rw [List.getElem?_map, getElem?_elements, getElem?_elements]
  have hsight := h.sight_eq_of_paired h' hpair index
  cases helement : final.element? c index with
  | none =>
    rw [helement] at hsight
    simpa using hsight
  | some item =>
    rw [helement, Option.map_some] at hsight
    obtain ⟨item', helement', hseen⟩ := Option.map_eq_some_iff.mp hsight
    rw [helement', Option.map_some]
    refine congrArg some ?_
    cases hcell : item.structCell? with
    | none =>
      rw [Item.renumbered_eq_self (by simp [hcell])]
      exact eq_of_sight_eq hcell hseen
    | some inner =>
      -- the path to the cells, and the index behind it, leads to partners again
      obtain ⟨inner', hcell'⟩ := exists_structCell?_of_sight_eq hcell hseen
      have hslot : final.structAt? c index = some inner :=
        structAt?_eq_some_iff.mpr ⟨item, by rwa [getElem?_elements], hcell⟩
      have hslot' : final'.structAt? c' index = some inner' :=
        structAt?_eq_some_iff.mpr ⟨item', by rwa [getElem?_elements], hcell'⟩
      have hinner := hpair.inside hslot hslot'
      obtain ⟨hnew, hlt⟩ := h.new_of_paired hinner
      simp only [Item.renumbered, hcell]
      rw [Item.structCell?_eq_some_iff.mp hcell', h.paired_unique hinner (hσ inner hnew hlt)]

/-- Each new cell has a partner; the other cells are left alone. -/
theorem exists_partners (h : heap.IsCopy cell final) (h' : heap.IsCopy cell final') :
    ∃ σ : Nat → Nat, (∀ c, heap.size ≤ c → c < final.size → Paired heap final final' c (σ c)) ∧
      ∀ c, ¬(heap.size ≤ c ∧ c < final.size) → σ c = c := by
  have hpartner : ∀ c, ∃ c', (heap.size ≤ c → c < final.size → Paired heap final final' c c') ∧
      (¬(heap.size ≤ c ∧ c < final.size) → c' = c) := by
    intro c
    by_cases hnew : heap.size ≤ c ∧ c < final.size
    · obtain ⟨c', hpair⟩ := h.exists_paired h' hnew.1 hnew.2
      exact ⟨c', fun _ _ => hpair, fun hold => absurd hnew hold⟩
    · exact ⟨c, fun hc hlt => absurd ⟨hc, hlt⟩ hnew, fun _ => rfl⟩
  choose σ hσ using hpartner
  exact ⟨σ, fun c => (hσ c).1, fun c => (hσ c).2⟩

/-- A copy has no more cells than another one. -/
theorem size_le (h : heap.IsCopy cell final) (h' : heap.IsCopy cell final') :
    final.size ≤ final'.size := by
  obtain ⟨σ, hσ, -⟩ := h.exists_partners h'
  have hcard :
      (Finset.Ico heap.size final.size).card ≤ (Finset.Ico heap.size final'.size).card := by
    refine Finset.card_le_card_of_injOn σ (fun c hc => ?_) fun a ha b hb hab => ?_
    · obtain ⟨hnew, hlt⟩ := Finset.mem_Ico.mp hc
      exact Finset.mem_coe.mpr (Finset.mem_Ico.mpr (h'.new_of_paired (hσ c hnew hlt).symm))
    · obtain ⟨hnew, hlt⟩ := Finset.mem_Ico.mp ha
      obtain ⟨hnew', hlt'⟩ := Finset.mem_Ico.mp hb
      have hpair := (hσ a hnew hlt).symm
      rw [hab] at hpair
      exact h'.paired_unique hpair (hσ b hnew' hlt').symm
  rw [Nat.card_Ico, Nat.card_Ico] at hcard
  have := h'.size_lt
  omega

/-- **Two copies of a struct are the same up to the numbers of their cells.** The cells that were
there keep their numbers, and so does the root. -/
theorem exists_renumbers (h : heap.IsCopy cell final) (h' : heap.IsCopy cell final')
    (hclosed : heap.Closed heap.size) :
    ∃ σ, Renumbers σ final final' ∧ ∀ c ≤ heap.size, σ c = c := by
  obtain ⟨σ, hσ, hold⟩ := h.exists_partners h'
  have hsize : final'.size = final.size := le_antisymm (h'.size_le h) (h.size_le h')
  have hfixed : ∀ c ≤ heap.size, σ c = c := by
    intro c hc
    rcases hc.eq_or_lt with rfl | hc
    · exact h.paired_unique (hσ _ le_rfl h.size_lt) (.root heap final final')
    · exact hold c (by omega)
  have hpartner : ∀ {c c'}, Paired heap final final' c c' → σ c = c' := by
    intro c c' hpair
    obtain ⟨hnew, hlt⟩ := h.new_of_paired hpair
    exact h.paired_unique (hσ c hnew hlt) hpair
  refine ⟨σ, ⟨⟨fun a b hab => ?_, fun c' => ?_⟩, hsize, fun c => ?_, ?_⟩, hfixed⟩
  · -- a new cell has a new partner, so it is not taken for an old one
    by_cases ha : heap.size ≤ a ∧ a < final.size <;> by_cases hb : heap.size ≤ b ∧ b < final.size
    · have hpair := (hσ a ha.1 ha.2).symm
      rw [hab] at hpair
      exact h'.paired_unique hpair (hσ b hb.1 hb.2).symm
    · have hnew := h'.new_of_paired (hσ a ha.1 ha.2).symm
      rw [hab, hold b hb, hsize] at hnew
      exact absurd hnew hb
    · have hnew := h'.new_of_paired (hσ b hb.1 hb.2).symm
      rw [← hab, hold a ha, hsize] at hnew
      exact absurd hnew ha
    · rwa [hold a ha, hold b hb] at hab
  · by_cases hnew : heap.size ≤ c' ∧ c' < final.size
    · obtain ⟨c, hpair⟩ := h'.exists_paired h hnew.1 (hsize ▸ hnew.2)
      exact ⟨c, hpartner hpair.symm⟩
    · exact ⟨c', hold c' hnew⟩
  · by_cases hnew : heap.size ≤ c ∧ c < final.size
    · exact h.elements_of_paired h' (hσ c hnew.1 hnew.2) hσ
    · rw [hold c hnew]
      by_cases hlt : c < heap.size
      · rw [h.grows.elements_eq c hlt, h'.grows.elements_eq c hlt,
          hclosed.map_renumbered (fun d hd => hfixed d hd.le) hlt]
      · rw [elements_of_le (by omega), elements_of_le (by omega), List.map_nil]
  · exact ⟨h'.same.1.trans h.same.1.symm, h'.same.2.trans h.same.2.symm⟩

end IsCopy

/-! ### The copy made level by level -/

theorem sameButCells_appendCopies (heap : Heap) (next : Nat) (sources : List Nat) :
    heap.SameButCells (heap.appendCopies next sources) := by
  induction sources generalizing heap next with
  | nil => exact ⟨rfl, rfl⟩
  | cons source sources ih => exact ih (heap.append _) _

theorem CopiesTo.sameButCells {heap final : Heap} {sources : List Nat}
    (h : CopiesTo heap sources final) : heap.SameButCells final := by
  induction h with
  | done heap => exact ⟨rfl, rfl⟩
  | level _ _ ih => exact (sameButCells_appendCopies _ _ _).trans ih

/-- Each cell of a copy but the first is inside another one: the structs in the new cells, read in
order, are the new cells behind the first. -/
theorem CopiesTo.isCopy {heap final : Heap} {cell : Nat} (h : CopiesTo heap [cell] final)
    (hb : heap.Closed heap.size) (hcell : cell < heap.size) : heap.IsCopy cell final := by
  have hsources : ∀ s ∈ [cell], s < heap.size := fun s hs => by rwa [List.mem_singleton.mp hs]
  have hg : heap.Grows final := h.grows hb hsources
  refine ⟨hg, h.size_le, fun d hd hlt => ?_, ?_, h.sameButCells⟩
  · have hmem : d ∈ (List.range' heap.size (final.size - heap.size)).flatMap final.nested := by
      rw [h.flatMap_nested hb hsources, List.length_singleton]
      exact List.mem_range'_1.mpr ⟨hd, by omega⟩
    obtain ⟨c, hc, hd⟩ := List.mem_flatMap.mp hmem
    obtain ⟨index, hslot⟩ := exists_structAt?_of_mem_nested hd
    exact ⟨c, index, (List.mem_range'_1.mp hc).1, hslot⟩
  · rw [← hb.read_eq hg.elements_eq hcell]
    exact h.read_eq hb hsources (cell, heap.size) List.mem_cons_self

end Heap

end StackScript
