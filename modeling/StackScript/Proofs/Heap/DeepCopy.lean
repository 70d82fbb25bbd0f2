import StackScript.Proofs.Heap.Worklist

/-!
# A copy is deep

A copy reads like its source, and it leads to new cells only. So neither of the two shows what is
written to the other. A copy made from a worklist is the same up to the numbers of new cells.

Main statement: `copy_deep`.
-/

namespace StackScript.Heap

open Relation

/-! ### Writes -/

/-- An element to be replaced, and what by. -/
structure Write where
  cell : Nat
  index : Nat
  item : Item

/-- The heap after writes in turn. -/
def write (heap : Heap) (writes : List Write) : Heap :=
  writes.foldl (fun heap w => heap.setElement w.cell w.index w.item) heap

theorem elements_write_of_ne (heap : Heap) {writes : List Write} {c : Nat}
    (h : ∀ w ∈ writes, w.cell ≠ c) : (heap.write writes).elements c = heap.elements c := by
  induction writes generalizing heap with
  | nil => rfl
  | cons w writes ih =>
    rw [List.forall_mem_cons] at h
    have hrest := ih (heap.setElement w.cell w.index w.item) h.2
    rw [elements_setElement, if_neg h.1.symm] at hrest
    exact hrest

/-- Writes to other cells than those that can be reached are not seen. -/
theorem read_write (heap : Heap) {P : Nat → Prop} (hclosed : ∀ c, P c → ∀ d ∈ heap.nested c, P d)
    {item : Item} (hitem : ∀ c, item.structCell? = some c → P c) {writes : List Write}
    (hwrites : ∀ w ∈ writes, ¬ P w.cell) : (heap.write writes).read item = heap.read item := by
  refine read_congr (fun c hc => ?_) hclosed hitem
  refine elements_write_of_ne heap fun w hw heq => hwrites w hw ?_
  rwa [heq]

/-! ### The main statement -/

/-- The struct `root` of the heap `final` is a deep copy of the struct `cell` of `heap`. -/
structure DeepCopy (heap : Heap) (cell : Nat) (final : Heap) (root : Nat) : Prop where
  /-- Making the copy comes to an end. -/
  ends : CopiesTo heap [cell] final
  /-- No cell that was there has changed. -/
  elements_eq : ∀ c < heap.size, final.elements c = heap.elements c
  /-- The structs inside the copy are new. -/
  fresh : ∀ d, ReflTransGen final.Holds root d → heap.size ≤ d ∧ d < final.size
  /-- The copy itself is inside nothing. -/
  root_unowned : final.Unowned root
  /-- Each struct inside the copy stands in one slot. -/
  slot_unique : ∀ d, ReflTransGen final.Holds root d → ∀ c c' i i',
    final.structAt? c i = some d → final.structAt? c' i' = some d → c = c' ∧ i = i'
  /-- The copy unfolds to the same tree. -/
  read_eq : final.read (.container ⟨.struct, root⟩) = heap.read (.container ⟨.struct, cell⟩)
  /-- Writes to the original and the structs inside it are not seen through the copy. -/
  read_copy : ∀ writes : List Write, (∀ w ∈ writes, ReflTransGen heap.Holds cell w.cell) →
    (final.write writes).read (.container ⟨.struct, root⟩) = heap.read (.container ⟨.struct, cell⟩)
  /-- Writes to the copy and the structs inside it are not seen through the original. -/
  read_original : ∀ writes : List Write, (∀ w ∈ writes, ReflTransGen final.Holds root w.cell) →
    (final.write writes).read (.container ⟨.struct, cell⟩) = heap.read (.container ⟨.struct, cell⟩)

section Copying

variable {heap final : Heap}

theorem Closed.lt_of_reflTransGen {bound : Nat} (hb : heap.Closed bound) {c d : Nat}
    (hc : c < bound) (h : ReflTransGen heap.Holds c d) : d < bound := by
  induction h with
  | refl => exact hc
  | tail _ hholds ih => exact hb.2 _ ih _ hholds

theorem Grows.le_of_reflTransGen (hg : heap.Grows final) {c d : Nat} (hc : heap.size ≤ c)
    (h : ReflTransGen final.Holds c d) : heap.size ≤ d := by
  induction h with
  | refl => exact hc
  | tail _ hholds ih => exact ih.trans (hg.lt_nested _ _ ih hholds).1.le

/-- New structs stand in new cells only. -/
theorem Grows.le_of_structAt? (hg : heap.Grows final) (hb : heap.Closed heap.size) {c d i : Nat}
    (hd : heap.size ≤ d) (h : final.structAt? c i = some d) : heap.size ≤ c := by
  by_contra hlt
  rw [Nat.not_le] at hlt
  rw [hg.structAt?_eq hlt] at h
  have := hb.2 c hlt d (mem_nested_of_structAt? h)
  omega

theorem CopiesTo.deepCopy {cell : Nat} (h : CopiesTo heap [cell] final)
    (hb : heap.Closed heap.size) (hcell : cell < heap.size) :
    heap.DeepCopy cell final heap.size := by
  obtain ⟨hg, hroot, -, hread, -⟩ := h.isCopy hb hcell
  refine ⟨h, hg.elements_eq, fun d hd => ?_, fun c i hslot => ?_,
    fun d hd c c' i i' hslot hslot' => ?_, hread, fun writes hwrites => ?_,
    fun writes hwrites => ?_⟩
  · refine ⟨hg.le_of_reflTransGen le_rfl hd, ?_⟩
    induction hd with
    | refl => exact hroot
    | tail hpath hholds _ =>
      exact (hg.lt_nested _ _ (hg.le_of_reflTransGen le_rfl hpath) hholds).2
  · have hc := hg.le_of_structAt? hb le_rfl hslot
    have := (hg.lt_nested c _ hc (mem_nested_of_structAt? hslot)).1
    omega
  · have hnew := hg.le_of_reflTransGen le_rfl hd
    exact hg.slot_unique d c c' i i' (hg.le_of_structAt? hb hnew hslot)
      (hg.le_of_structAt? hb hnew hslot') hslot hslot'
  · rw [← hread]
    refine read_write final (P := fun c => heap.size ≤ c) (fun c hc d hd => ?_) (fun c hc => ?_)
      (fun w hw => ?_)
    · exact hc.trans (hg.lt_nested c d hc hd).1.le
    · exact (Option.some.inj hc).le
    · exact Nat.not_le.mpr (hb.lt_of_reflTransGen hcell (hwrites w hw))
  · refine hb.read_eq (fun c hc => ?_) hcell
    rw [elements_write_of_ne, hg.elements_eq c hc]
    intro w hw heq
    have := hg.le_of_reflTransGen le_rfl (hwrites w hw)
    omega

end Copying

/-- **Copying an item for storage is deep in structs and shallow in all else.** An item that is no
struct is itself what is stored, and the heap stays as it is. In a heap without dangling structs, if
no struct inside a struct is inside itself, the copy comes to an end, changes no cell, consists of
new structs that each stand in one slot, and unfolds to the same tree of structs with the same items
in it. So neither of the two shows what is written to the other. Made from a worklist, the copy
comes to an end too, with the same root, and the heap is the same when its other new cells are
renumbered. -/
theorem copy_deep (heap : Heap) (item : Item) :
    (item.structCell? = none → heap.copy item = (item, heap) ∧
      ∀ turns, heap.clone turns item = some (item, heap)) ∧
    ∀ cell, item = .container ⟨.struct, cell⟩ → heap.Closed heap.size → cell < heap.size →
      heap.AcyclicFrom cell →
      ∃ root final, heap.copy item = (.container ⟨.struct, root⟩, final) ∧
        heap.DeepCopy cell final root ∧
        ∃ turns cloned σ, (∀ more, turns ≤ more →
            heap.clone more item = some (.container ⟨.struct, root⟩, cloned)) ∧
          Renumbers σ final cloned ∧ ∀ c ≤ root, σ c = c := by
  constructor
  · intro hother
    exact ⟨by simp only [copy, hother], fun turns => by simp only [clone, hother]⟩
  · rintro cell rfl hb hcell hacyclic
    refine ⟨heap.size, heap.copyLevels heap.size [cell], rfl, ?_⟩
    have hends : heap.CopyEnds (.container ⟨.struct, cell⟩) := by
      refine copyEnds_of_acyclicFrom hb fun c hc => ?_
      obtain rfl : cell = c := Option.some.inj hc
      exact ⟨hcell, hacyclic⟩
    have hcopies := hends cell rfl
    exact ⟨hcopies.deepCopy hb hcell, exists_clone_renumbers hb hcell hacyclic hcopies⟩

/-- A struct that holds another one twice, beside an array that holds the struct itself. -/
def sharing : Heap where
  cells := #[#[.container ⟨.struct, 1⟩, .container ⟨.array, 2⟩, .container ⟨.struct, 1⟩],
    #[.integer 7], #[.container ⟨.struct, 0⟩]]

theorem sharing_acyclic : sharing.Acyclic := by
  refine acyclic_of_rank (fun c => if c = 1 then 0 else c + 1) fun c d hd => ?_
  have hfalls : ∀ c < 3, ∀ d ∈ sharing.nested c,
      (if d = 1 then 0 else d + 1) < if c = 1 then 0 else c + 1 := by decide
  obtain ⟨item, hitem, -⟩ := List.mem_filterMap.mp hd
  exact hfalls c (lt_size_of_mem_elements hitem) d hd

theorem sharing_acyclicFrom : sharing.AcyclicFrom 0 := sharing_acyclic.acyclicFrom 0

/-- The copy has a struct of its own for each of the two places, and keeps their contents when the
shared one is written to. -/
theorem copy_deep_sharing :
    ∃ final, sharing.copy (.container ⟨.struct, 0⟩) = (.container ⟨.struct, 3⟩, final) ∧
      final.size = 6 ∧ sharing.DeepCopy 0 final 3 ∧
      (∃ turns cloned σ, (∀ more, turns ≤ more → sharing.clone more (.container ⟨.struct, 0⟩) =
          some (.container ⟨.struct, 3⟩, cloned)) ∧
        Renumbers σ final cloned ∧ ∀ c ≤ 3, σ c = c) ∧
      (final.write [⟨1, 0, .boolean true⟩]).read (.container ⟨.struct, 0⟩) [2, 0] =
        some (.other (.boolean true)) ∧
      (final.write [⟨1, 0, .boolean true⟩]).read (.container ⟨.struct, 3⟩) [2, 0] =
        some (.other (.integer 7)) := by
  obtain ⟨root, final, hcopy, hdeep, hclone⟩ :=
    (copy_deep sharing (.container ⟨.struct, 0⟩)).2 0 rfl ⟨le_rfl, by decide⟩ (by decide)
      sharing_acyclicFrom
  obtain ⟨hroot, rfl⟩ : Item.container ⟨.struct, 3⟩ = .container ⟨.struct, root⟩ ∧
      sharing.copyLevels 3 [0] = final := Prod.mk.inj hcopy
  obtain rfl : 3 = root := by simpa using hroot
  exact ⟨_, hcopy, by decide, hdeep, hclone, by decide, by decide⟩

end StackScript.Heap
