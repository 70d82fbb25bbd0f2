import StackScript.Proofs.Heap.Numbering

/-!
# Copying from a worklist

A worklist holds pairs of cells: one to be copied and an empty one for its copy. A turn fills the
empty cell of the first pair, and puts a pair in front for each struct among the elements. The
invariant (`Worklist.Filling`) is that the new cells are a tree already, with the cells on the list
as its empty leaves. A turn keeps it (`Filling.fill`), so a run keeps it (`Filling.run`).

A run comes to an end if no struct inside the sources is inside itself (`Filling.exists_run`): the
pairs that a turn puts in front have fewer structs inside, and those behind them wait.

Main statement: `Heap.exists_clone_renumbers`, a copy made from a worklist is the copy made level by
level, up to the numbers of the new cells.
-/

namespace StackScript

namespace Heap

/-! ### Empty cells -/

/-- The heap with empty cells at its end. -/
def extend (heap : Heap) : (count : Nat) → Heap
  | 0 => heap
  | count + 1 => (heap.append #[]).extend count

theorem elements_append_empty (heap : Heap) (c : Nat) :
    (heap.append #[]).elements c = heap.elements c := by
  rcases Nat.lt_trichotomy c heap.size with hlt | rfl | hgt
  · exact elements_append_of_lt heap #[] hlt
  · rw [elements_append_size, elements_of_le le_rfl]
  · rw [elements_of_le (by rw [size_append]; omega), elements_of_le hgt.le]

@[simp] theorem elements_extend (heap : Heap) (count c : Nat) :
    (heap.extend count).elements c = heap.elements c := by
  induction count generalizing heap with
  | zero => rfl
  | succ count ih => rw [extend, ih, elements_append_empty]

@[simp] theorem size_extend (heap : Heap) (count : Nat) :
    (heap.extend count).size = heap.size + count := by
  induction count generalizing heap with
  | zero => rfl
  | succ count ih =>
    rw [extend, ih, size_append]
    omega

theorem sameButCells_extend (heap : Heap) (count : Nat) :
    heap.SameButCells (heap.extend count) := by
  induction count generalizing heap with
  | zero => exact ⟨rfl, rfl⟩
  | succ count ih => exact ih (heap.append #[])

@[simp] theorem size_setElements (heap : Heap) (cell : Nat) (items : Array Item) :
    (heap.setElements cell items).size = heap.size := by
  simp [setElements, size]

theorem elements_setElements_self {heap : Heap} {cell : Nat} (h : cell < heap.size)
    (items : Array Item) : (heap.setElements cell items).elements cell = items.toList := by
  have hcell : cell < heap.cells.size := h
  simp [setElements, elements, Array.getD_eq_getD_getElem?, hcell]

theorem elements_setElements_of_ne (heap : Heap) {cell c : Nat} (h : c ≠ cell)
    (items : Array Item) : (heap.setElements cell items).elements c = heap.elements c := by
  simp [setElements, elements, Array.getD_eq_getD_getElem?,
    Array.getElem?_setIfInBounds_ne (Ne.symm h)]

/-- Empty cells add nothing to a heap. -/
theorem grows_append_empty (heap : Heap) : heap.Grows (heap.append #[]) := by
  have hnone : ∀ c, heap.size ≤ c → (heap.append #[]).elements c = [] := by
    intro c hc
    rw [elements_append_empty, elements_of_le hc]
  refine ⟨by simp, fun c _ => elements_append_empty heap c, fun c d hc hd => ?_,
    fun c d d' i i' hd _ hslot _ => ?_, fun c hc item hitem _ => ?_⟩
  · simp [nested, hnone c hc, structCells] at hd
  · have := mem_nested_of_structAt? hslot
    simp [nested, hnone d hd, structCells] at this
  · simp [hnone c hc] at hitem

end Heap

namespace Worklist

open Heap

/-! ### One turn -/

/-- Structs get the next cells in turn, and are put on the worklist in turn, so the last one is
first. -/
theorem visitAll_eq (w : Worklist) (items : List Item) : w.visitAll items =
    (renumber w.heap.size items, ⟨w.heap.extend (structCells items).length,
      (numbered w.heap.size (structCells items)).reverse ++ w.pending⟩) := by
  induction items generalizing w with
  | nil => rfl
  | cons item items ih =>
    cases h : item.structCell? with
    | none =>
      have hvisit : w.visit item = (item, w) := by simp only [visit, h]
      simp only [visitAll, hvisit, ih, renumber_cons_other _ _ h, structCells,
        List.filterMap_cons_none h]
    | some cell =>
      have hvisit : w.visit item = (.container ⟨.struct, w.heap.size⟩,
          ⟨w.heap.append #[], (cell, w.heap.size) :: w.pending⟩) := by simp only [visit, h]
      simp only [visitAll, hvisit, ih, renumber_cons_struct _ _ h, structCells,
        List.filterMap_cons_some h, size_append, List.length_cons, numbered_cons,
        List.reverse_cons, List.append_assoc, List.singleton_append]
      rfl

section Fill

variable (w : Worklist) (source target : Nat)

theorem fill_eq : w.fill source target =
    ⟨(w.heap.extend (w.heap.nested source).length).setElements target
        (renumber w.heap.size (w.heap.elements source)).toArray,
      (numbered w.heap.size (w.heap.nested source)).reverse ++ w.pending⟩ := by
  rw [fill, visitAll_eq]
  rfl

theorem pending_fill : (w.fill source target).pending =
    (numbered w.heap.size (w.heap.nested source)).reverse ++ w.pending := by
  rw [fill_eq]

theorem size_fill :
    (w.fill source target).heap.size = w.heap.size + (w.heap.nested source).length := by
  rw [fill_eq]
  simp

theorem size_le_fill : w.heap.size ≤ (w.fill source target).heap.size := by
  rw [size_fill]
  exact Nat.le_add_right ..

variable {w} in
/-- The cells that come in are new. -/
theorem ne_of_mem_pending_fill {c : Nat} (hc : c < w.heap.size) (hkept : ∀ p ∈ w.pending, p.2 ≠ c) :
    ∀ p ∈ (w.fill source target).pending, p.2 ≠ c := by
  intro p hp
  rw [pending_fill] at hp
  rcases List.mem_append.mp hp with hp | hp
  · have hle := (of_mem_numbered (List.mem_reverse.mp hp)).2.1
    exact (hc.trans_le hle).ne'
  · exact hkept p hp

theorem elements_fill_of_ne {c : Nat} (h : c ≠ target) :
    (w.fill source target).heap.elements c = w.heap.elements c := by
  rw [fill_eq]
  simp [elements_setElements_of_ne _ h]

variable {w target} in
theorem elements_fill_target (h : target < w.heap.size) :
    (w.fill source target).heap.elements target =
      renumber w.heap.size (w.heap.elements source) := by
  rw [fill_eq, elements_setElements_self (by rw [size_extend]; omega), List.toList_toArray]

variable {w target} in
theorem nested_fill_target (h : target < w.heap.size) :
    (w.fill source target).heap.nested target =
      List.range' w.heap.size (w.heap.nested source).length := by
  rw [nested, elements_fill_target source h, structCells_renumber]
  rfl

theorem structAt?_fill_of_ne {c : Nat} (h : c ≠ target) (index : Nat) :
    (w.fill source target).heap.structAt? c index = w.heap.structAt? c index := by
  rw [structAt?, structAt?, ← getElem?_elements, ← getElem?_elements,
    elements_fill_of_ne w source _ h]

end Fill

/-! ### All turns -/

@[simp] theorem run_nil (turns : Nat) (heap : Heap) : run turns ⟨heap, []⟩ = some heap := by
  cases turns <;> rfl

/-- More turns than are needed make no difference. -/
theorem run_mono {turns more : Nat} {w : Worklist} {final : Heap} (h : w.run turns = some final)
    (hle : turns ≤ more) : w.run more = some final := by
  induction turns, w using Worklist.run.induct generalizing more with
  | case1 turns heap => rwa [run_nil] at h ⊢
  | case2 => cases h
  | case3 turns heap source target rest ih =>
    cases more with
    | zero => omega
    | succ more => exact ih h (by omega)

/-- Only the cells to be filled are written to. -/
theorem elements_run {turns c : Nat} {w : Worklist} {final : Heap} (h : w.run turns = some final)
    (hc : c < w.heap.size) (hkept : ∀ p ∈ w.pending, p.2 ≠ c) :
    final.elements c = w.heap.elements c := by
  induction turns, w using Worklist.run.induct with
  | case1 turns heap =>
    rw [run_nil] at h
    cases h
    rfl
  | case2 => cases h
  | case3 turns heap source target rest ih =>
    rw [List.forall_mem_cons] at hkept
    rw [ih h (hc.trans_le (size_le_fill ⟨heap, rest⟩ source target))
        (ne_of_mem_pending_fill source target hc hkept.2), elements_fill_of_ne _ _ _ hkept.1.symm]

/-! ### The invariant -/

/-- The new cells of a worklist are a tree whose root is the first of them. The cells to be filled
are empty, and what goes into them comes from cells that were there. -/
structure Filling (heap : Heap) (w : Worklist) : Prop where
  grows : heap.Grows w.heap
  size_lt : heap.size < w.heap.size
  held : ∀ d, heap.size < d → d < w.heap.size →
    ∃ c i, heap.size ≤ c ∧ w.heap.structAt? c i = some d
  source_lt : ∀ p ∈ w.pending, p.1 < heap.size
  target_new : ∀ p ∈ w.pending, heap.size ≤ p.2 ∧ p.2 < w.heap.size
  target_empty : ∀ p ∈ w.pending, w.heap.elements p.2 = []
  target_nodup : (w.pending.map Prod.snd).Nodup
  same : heap.SameButCells w.heap

theorem filling_start (heap : Heap) {cell : Nat} (h : cell < heap.size) :
    Filling heap ⟨heap.append #[], [(cell, heap.size)]⟩ where
  grows := grows_append_empty heap
  size_lt := by simp
  held d hd hlt := by
    rw [size_append] at hlt
    omega
  source_lt := by simpa using h
  target_new := by simp
  target_empty := by simp
  target_nodup := by simp
  same := ⟨rfl, rfl⟩

namespace Filling

variable {heap final : Heap} {w : Worklist} {source target turns : Nat} {rest : List (Nat × Nat)}

section Step

variable {before : Heap} (h : Filling heap ⟨before, (source, target) :: rest⟩)

include h

theorem first_source : source < heap.size := h.source_lt _ List.mem_cons_self

theorem first_target : heap.size ≤ target ∧ target < before.size :=
  h.target_new _ List.mem_cons_self

theorem target_ne {p : Nat × Nat} (hp : p ∈ rest) : p.2 ≠ target := by
  intro heq
  have hnodup : target ∉ rest.map Prod.snd := (List.nodup_cons.mp h.target_nodup).1
  exact hnodup (heq ▸ List.mem_map_of_mem hp)

theorem nested_source : before.nested source = heap.nested source :=
  h.grows.nested_eq h.first_source

/-- The structs in the cell that is filled are the last ones. -/
theorem of_slot_target {d i : Nat}
    (hslot : (Worklist.fill ⟨before, rest⟩ source target).heap.structAt? target i = some d) :
    before.size ≤ d ∧ d < (Worklist.fill ⟨before, rest⟩ source target).heap.size := by
  have hmem := mem_nested_of_structAt? hslot
  rw [nested_fill_target source h.first_target.2] at hmem
  rw [size_fill]
  exact List.mem_range'_1.mp hmem

/-- The structs in other cells were there before. -/
theorem of_slot_other {c d i : Nat} (hc : heap.size ≤ c) (hne : c ≠ target)
    (hslot : (Worklist.fill ⟨before, rest⟩ source target).heap.structAt? c i = some d) :
    before.structAt? c i = some d ∧ c < d ∧ d < before.size := by
  rw [structAt?_fill_of_ne _ _ _ hne] at hslot
  exact ⟨hslot, h.grows.lt_nested c d hc (mem_nested_of_structAt? hslot)⟩

theorem slot_unique_fill {c d d' i i' : Nat} (hd : heap.size ≤ d) (hd' : heap.size ≤ d')
    (hslot : (Worklist.fill ⟨before, rest⟩ source target).heap.structAt? d i = some c)
    (hslot' : (Worklist.fill ⟨before, rest⟩ source target).heap.structAt? d' i' = some c) :
    d = d' ∧ i = i' := by
  by_cases hne : d = target <;> by_cases hne' : d' = target
  · subst hne hne'
    obtain ⟨a, ha, hca⟩ := structAt?_eq_some_iff.mp hslot
    obtain ⟨b, hb, hcb⟩ := structAt?_eq_some_iff.mp hslot'
    refine ⟨rfl, eq_of_nodup_filterMap ?_ ha hb hca hcb⟩
    have hnested := nested_fill_target (w := ⟨before, rest⟩) source h.first_target.2
    rw [nested] at hnested
    rw [hnested]
    exact List.nodup_range'
  · subst hne
    have hlast := (h.of_slot_target hslot).1
    have hearly := (h.of_slot_other hd' hne' hslot').2.2
    omega
  · subst hne'
    have hlast := (h.of_slot_target hslot').1
    have hearly := (h.of_slot_other hd hne hslot).2.2
    omega
  · exact h.grows.slot_unique c d d' i i' hd hd' (h.of_slot_other hd hne hslot).1
      (h.of_slot_other hd' hne' hslot').1

theorem grows_fill : heap.Grows (Worklist.fill ⟨before, rest⟩ source target).heap := by
  obtain ⟨hnew, hlt⟩ := h.first_target
  have hsource := h.first_source
  have hsize := size_le_fill ⟨before, rest⟩ source target
  refine ⟨h.grows.size_le.trans hsize, fun c hc => ?_, fun c d hc hd => ?_,
    fun c d d' i i' hd hd' => h.slot_unique_fill hd hd', fun c hc item hitem hother => ?_⟩
  · rw [elements_fill_of_ne _ _ _ (by omega), h.grows.elements_eq c hc]
  · obtain ⟨i, hslot⟩ := exists_structAt?_of_mem_nested hd
    by_cases hne : c = target
    · subst hne
      obtain ⟨hle, hlast⟩ := h.of_slot_target hslot
      exact ⟨hlt.trans_le hle, hlast⟩
    · obtain ⟨-, hcd, hearly⟩ := h.of_slot_other hc hne hslot
      exact ⟨hcd, hearly.trans_le hsize⟩
  · by_cases hne : c = target
    · subst hne
      rw [elements_fill_target source hlt] at hitem
      have hmem := mem_of_mem_renumber hitem hother
      rw [h.grows.elements_eq source hsource] at hmem
      exact ⟨source, hmem⟩
    · rw [elements_fill_of_ne _ _ _ hne] at hitem
      exact h.grows.others c hc item hitem hother

/-- A cell that was there keeps its slot, and a new one has a slot in the cell that is filled. -/
theorem held_fill {d : Nat} (hd : heap.size < d)
    (hlt : d < (Worklist.fill ⟨before, rest⟩ source target).heap.size) :
    ∃ c i, heap.size ≤ c ∧
      (Worklist.fill ⟨before, rest⟩ source target).heap.structAt? c i = some d := by
  obtain ⟨hnew, htarget⟩ := h.first_target
  by_cases hold : d < before.size
  · obtain ⟨c, i, hc, hslot⟩ := h.held d hd hold
    have hne : c ≠ target := by
      rintro rfl
      have hmem := mem_nested_of_structAt? hslot
      simp [nested, h.target_empty _ List.mem_cons_self, structCells] at hmem
    exact ⟨c, i, hc, by rwa [structAt?_fill_of_ne _ _ _ hne]⟩
  · have hmem : d ∈ (Worklist.fill ⟨before, rest⟩ source target).heap.nested target := by
      rw [nested_fill_target source htarget]
      rw [size_fill] at hlt
      exact List.mem_range'_1.mpr ⟨Nat.not_lt.mp hold, hlt⟩
    obtain ⟨i, hslot⟩ := exists_structAt?_of_mem_nested hmem
    exact ⟨target, i, hnew, hslot⟩

/-- The cell that is filled is not written to again. -/
theorem elements_target_run
    (hrun : (Worklist.fill ⟨before, rest⟩ source target).run turns = some final) :
    final.elements target = renumber before.size (before.elements source) := by
  have hlt := h.first_target.2
  rw [elements_run hrun (hlt.trans_le (size_le_fill ⟨before, rest⟩ source target))
      (ne_of_mem_pending_fill source target hlt fun p hp => h.target_ne hp),
    elements_fill_target source hlt]

/-- **A turn keeps the invariant.** -/
theorem fill (hb : heap.Closed heap.size) :
    Filling heap (Worklist.fill ⟨before, rest⟩ source target) := by
  obtain ⟨hnew, htarget⟩ := h.first_target
  have hsource := h.first_source
  have hsize := size_le_fill ⟨before, rest⟩ source target
  have hpending : ∀ p ∈ (Worklist.fill ⟨before, rest⟩ source target).pending,
      p ∈ rest ∨ p ∈ numbered before.size (before.nested source) := by
    intro p hp
    rw [pending_fill] at hp
    rcases List.mem_append.mp hp with hp | hp
    · exact .inr (List.mem_reverse.mp hp)
    · exact .inl hp
  refine ⟨h.grows_fill, h.size_lt.trans_le hsize, fun d hd hlt => h.held_fill hd hlt,
    fun p hp => ?_, fun p hp => ?_, fun p hp => ?_, ?_, ?_⟩
  · rcases hpending p hp with hp | hp
    · exact h.source_lt p (List.mem_cons_of_mem _ hp)
    · have hinner := (of_mem_numbered hp).1
      rw [h.nested_source] at hinner
      exact hb.2 source hsource _ hinner
  · rcases hpending p hp with hp | hp
    · obtain ⟨hp, hlt⟩ := h.target_new p (List.mem_cons_of_mem _ hp)
      exact ⟨hp, hlt.trans_le hsize⟩
    · obtain ⟨-, hle, hlt⟩ := of_mem_numbered hp
      rw [size_fill]
      exact ⟨h.grows.size_le.trans hle, hlt⟩
  · rcases hpending p hp with hp | hp
    · rw [elements_fill_of_ne _ _ _ (h.target_ne hp)]
      exact h.target_empty p (List.mem_cons_of_mem _ hp)
    · have hle := (of_mem_numbered hp).2.1
      rw [elements_fill_of_ne _ _ _ (by omega)]
      exact elements_of_le hle
  · rw [pending_fill, List.map_append, List.map_reverse, map_snd_numbered]
    refine List.Nodup.append (List.nodup_reverse.mpr List.nodup_range')
      (List.nodup_cons.mp h.target_nodup).2 fun t ht ht' => ?_
    obtain ⟨p, hp, rfl⟩ := List.mem_map.mp ht'
    have hlt := (h.target_new p (List.mem_cons_of_mem _ hp)).2
    have hle := (List.mem_range'_1.mp (List.mem_reverse.mp ht)).1
    exact absurd hlt (Nat.not_lt.mpr hle)
  · rw [fill_eq]
    exact h.same.trans (sameButCells_extend before _)

end Step

/-! ### Runs -/

/-- **A run keeps the invariant**, and nothing is left to be filled. -/
theorem run (h : Filling heap w) (hb : heap.Closed heap.size) (hrun : w.run turns = some final) :
    Filling heap ⟨final, []⟩ := by
  induction turns, w using Worklist.run.induct with
  | case1 turns before =>
    rw [run_nil] at hrun
    cases hrun
    exact h
  | case2 => cases hrun
  | case3 turns before source target rest ih => exact ih (h.fill hb) hrun

/-- **A copy from a worklist reads like its source.** -/
theorem read_run (h : Filling heap w) (hb : heap.Closed heap.size)
    (hrun : w.run turns = some final) : ∀ p ∈ w.pending,
      final.read (.container ⟨.struct, p.2⟩) = final.read (.container ⟨.struct, p.1⟩) := by
  induction turns, w using Worklist.run.induct with
  | case1 turns before => exact fun p hp => absurd hp List.not_mem_nil
  | case2 => cases hrun
  | case3 turns before source target rest ih =>
    have hfill := h.fill hb
    have hlater := ih hfill hrun
    rw [pending_fill] at hlater
    refine List.forall_mem_cons.mpr ⟨?_, fun p hp => hlater p (List.mem_append_right _ hp)⟩
    have hsource : final.elements source = before.elements source := by
      rw [(hfill.run hb hrun).grows.elements_eq source h.first_source,
        h.grows.elements_eq source h.first_source]
    refine read_struct_congr ?_
    rw [h.elements_target_run hrun, hsource]
    refine (forall₂_renamed_renumber before.size _).imp fun a b hab => ?_
    rcases hab with ⟨-, rfl⟩ | ⟨q, hq, rfl, rfl⟩
    · rfl
    · exact hlater q (List.mem_append_left _ (List.mem_reverse.mpr hq))

/-- **A run comes to an end** if no struct inside the sources is inside itself. The pairs in front
have fewer structs inside than `bound`, and those behind them are taken care of. -/
theorem exists_run (hb : heap.Closed heap.size) (bound : Nat) {front : List (Nat × Nat)}
    (hfront : ∀ p ∈ front, heap.AcyclicFrom p.1 ∧ heap.height p.1 < bound)
    (hrest : ∀ before, Filling heap ⟨before, rest⟩ →
      ∃ turns final, Worklist.run turns ⟨before, rest⟩ = some final) :
    ∀ before, Filling heap ⟨before, front ++ rest⟩ →
      ∃ turns final, Worklist.run turns ⟨before, front ++ rest⟩ = some final := by
  induction bound generalizing front rest with
  | zero =>
    cases front with
    | nil => exact hrest
    | cons p front => exact absurd (hfront p List.mem_cons_self).2 (Nat.not_lt_zero _)
  | succ bound ih =>
    induction front with
    | nil => exact hrest
    | cons p front ihfront =>
      obtain ⟨source, target⟩ := p
      rw [List.forall_mem_cons] at hfront
      obtain ⟨⟨hacyclic, hheight⟩, hfront⟩ := hfront
      intro before h
      have hfill : Filling heap (Worklist.fill ⟨before, front ++ rest⟩ source target) := h.fill hb
      -- the structs inside the source go in front of all others
      have hinner : ∀ p ∈ (numbered before.size (before.nested source)).reverse,
          heap.AcyclicFrom p.1 ∧ heap.height p.1 < bound := by
        intro p hp
        have hholds : heap.Holds source p.1 := by
          rw [Holds, ← h.nested_source]
          exact (of_mem_numbered (List.mem_reverse.mp hp)).1
        have hlt := height_lt hacyclic (hb.2 source h.first_source p.1 hholds) hholds
        exact ⟨hacyclic.inside hholds, by omega⟩
      rw [fill_eq] at hfill
      obtain ⟨turns, final, hrun⟩ := ih hinner (ihfront hfront) _ hfill
      refine ⟨turns + 1, final, ?_⟩
      rw [← hrun, ← fill_eq ⟨before, front ++ rest⟩]
      rfl


end Filling

end Worklist

namespace Heap

open Worklist

/-- **A copy made from a worklist.** It comes to an end if no struct inside the struct is inside
itself, however many more turns are allowed, and the new cells are a copy. -/
theorem exists_clone_isCopy {heap : Heap} {cell : Nat} (hb : heap.Closed heap.size)
    (hcell : cell < heap.size) (hacyclic : heap.AcyclicFrom cell) :
    ∃ turns final, heap.IsCopy cell final ∧ ∀ more, turns ≤ more →
      heap.clone more (.container ⟨.struct, cell⟩) =
        some (.container ⟨.struct, heap.size⟩, final) := by
  have hstart := filling_start heap hcell
  have hfront : ∀ p ∈ [(cell, heap.size)],
      heap.AcyclicFrom p.1 ∧ heap.height p.1 < heap.height cell + 1 := by simpa using hacyclic
  have hnone : ∀ before, Filling heap ⟨before, []⟩ →
      ∃ turns final, Worklist.run turns ⟨before, []⟩ = some final := fun before _ =>
    ⟨0, before, run_nil 0 before⟩
  obtain ⟨turns, final, hrun⟩ :
      ∃ turns final, Worklist.run turns ⟨heap.append #[], [(cell, heap.size)]⟩ = some final :=
    Filling.exists_run hb _ hfront hnone _ hstart
  have hfinal := hstart.run hb hrun
  refine ⟨turns, final, ⟨hfinal.grows, hfinal.size_lt, hfinal.held, ?_, hfinal.same⟩,
    fun more hmore => ?_⟩
  · rw [← hb.read_eq hfinal.grows.elements_eq hcell]
    exact hstart.read_run hb hrun _ List.mem_cons_self
  · show (Worklist.run more _).map _ = _
    rw [run_mono hrun hmore]
    rfl

/-- **The worklist and the levels make the same copy**, up to the numbers of new cells. -/
theorem exists_clone_renumbers {heap final : Heap} {cell : Nat} (hb : heap.Closed heap.size)
    (hcell : cell < heap.size) (hacyclic : heap.AcyclicFrom cell)
    (hcopy : CopiesTo heap [cell] final) :
    ∃ turns cloned σ, (∀ more, turns ≤ more → heap.clone more (.container ⟨.struct, cell⟩) =
        some (.container ⟨.struct, heap.size⟩, cloned)) ∧
      Renumbers σ final cloned ∧ ∀ c ≤ heap.size, σ c = c := by
  obtain ⟨turns, cloned, hcloned, hclone⟩ := exists_clone_isCopy hb hcell hacyclic
  obtain ⟨σ, hσ, hfixed⟩ := (hcopy.isCopy hb hcell).exists_renumbers hcloned hb
  exact ⟨turns, cloned, σ, hclone, hσ, hfixed⟩

end Heap

end StackScript
