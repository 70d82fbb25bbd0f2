import StackScript.Proofs.Heap.Copying
import Mathlib.Data.Finset.Card
import Mathlib.Data.Finset.Range
import Mathlib.Logic.Relation

/-!
# Structs are owned by one slot

Structs have value semantics: a struct is copied whenever it is stored, so no two slots share one.
`Heap.Sound` says what that means for a heap. Every reference leads to a cell of its kind, every
struct stands in one slot at most, and no struct is inside itself.

Copying a struct (`Sound.grow`), putting items into a new container (`Sound.append`) and replacing
an element (`Sound.setElement`) keep a heap sound, as long as the items stored are `Storable`: the
structs among them stand in no slot yet. Copies are storable (`copyAll_storable`), and in a sound
heap every copy comes to an end (`Sound.copyEnds`): the structs inside a cell are fewer than the
cells, and each level of the copy has fewer of them inside.
-/

namespace StackScript

open Relation

/-- A reference leads to a cell that exists and has the kind of the reference. -/
def Item.Refers (kinds : Nat → ContainerKind) (size : Nat) (item : Item) : Prop :=
  ∀ ref, item.ref? = some ref → ref.cell < size ∧ kinds ref.cell = ref.kind

theorem Item.refers_of_ref?_eq_none {item : Item} (h : item.ref? = none)
    (kinds : Nat → ContainerKind) (size : Nat) : item.Refers kinds size := by
  intro ref href
  rw [h] at href
  cases href

theorem Item.structCell?_eq_some_iff {item : Item} {cell : Nat} :
    item.structCell? = some cell ↔ item = .container ⟨.struct, cell⟩ := by
  constructor
  · intro h
    unfold Item.structCell? at h
    split at h
    · rw [Option.some.inj h]
    · cases h
  · rintro rfl
    rfl

theorem Item.Refers.of_structCell? {kinds : Nat → ContainerKind} {size cell : Nat} {item : Item}
    (h : item.Refers kinds size) (hcell : item.structCell? = some cell) :
    cell < size ∧ kinds cell = .struct := by
  rw [Item.structCell?_eq_some_iff] at hcell
  subst hcell
  exact h ⟨.struct, cell⟩ rfl

theorem Item.structCell?_of_ref?_eq_none {item : Item} (h : item.ref? = none) :
    item.structCell? = none := by
  cases item with
  | container ref => cases h
  | _ => rfl

/-- A heap that grows keeps the kinds of its cells. -/
theorem Item.Refers.mono {kinds kinds' : Nat → ContainerKind} {size size' : Nat} {item : Item}
    (h : item.Refers kinds size) (hsize : size ≤ size') (hkinds : ∀ c < size, kinds' c = kinds c) :
    item.Refers kinds' size' := by
  intro ref href
  obtain ⟨hlt, hkind⟩ := h ref href
  exact ⟨hlt.trans_le hsize, by rw [hkinds _ hlt, hkind]⟩

namespace Heap

/-! ### Structs inside structs -/

/-- A cell directly contains a struct. -/
def Holds (heap : Heap) (c d : Nat) : Prop := d ∈ heap.nested c

/-- No struct is inside itself. -/
def Acyclic (heap : Heap) : Prop := ∀ c, ¬ TransGen heap.Holds c c

/-- No struct inside a cell is inside itself, and neither is the cell. -/
def AcyclicFrom (heap : Heap) (c : Nat) : Prop :=
  ∀ d, ReflTransGen heap.Holds c d → ¬ TransGen heap.Holds d d

theorem Acyclic.acyclicFrom {heap : Heap} (h : heap.Acyclic) (c : Nat) : heap.AcyclicFrom c :=
  fun d _ => h d

/-- A rank that falls from each cell to the structs in it rules out cycles. -/
theorem acyclic_of_rank {heap : Heap} (rank : Nat → Nat)
    (h : ∀ c, ∀ d ∈ heap.nested c, rank d < rank c) : heap.Acyclic := by
  have hfalls : ∀ c d, TransGen heap.Holds c d → rank d < rank c := by
    intro c d hreach
    induction hreach with
    | single hholds => exact h _ _ hholds
    | tail _ hholds ih => exact (h _ _ hholds).trans ih
  exact fun c hcycle => (hfalls c c hcycle).false

theorem AcyclicFrom.inside {heap : Heap} {c d : Nat} (h : heap.AcyclicFrom c)
    (hholds : heap.Holds c d) : heap.AcyclicFrom d := fun x hx => h x (.head hholds hx)

open Classical in
/-- The number of structs inside a cell, at any depth. -/
noncomputable def height (heap : Heap) (c : Nat) : Nat :=
  ((Finset.range heap.size).filter fun d => TransGen heap.Holds c d).card

theorem height_lt_size {heap : Heap} {c : Nat} (h : heap.AcyclicFrom c) (hc : c < heap.size) :
    heap.height c < heap.size := by
  classical
  have hss : (Finset.range heap.size).filter (fun d => TransGen heap.Holds c d) ⊂
      Finset.range heap.size := by
    refine Finset.filter_ssubset.mpr ⟨c, Finset.mem_range.mpr hc, h c .refl⟩
  have := Finset.card_lt_card hss
  rw [Finset.card_range] at this
  unfold height
  convert this

/-- What is inside a cell has fewer structs inside. -/
theorem height_lt {heap : Heap} {c d : Nat} (h : heap.AcyclicFrom c) (hd : d < heap.size)
    (hholds : heap.Holds c d) : heap.height d < heap.height c := by
  classical
  unfold height
  refine Finset.card_lt_card (Finset.ssubset_iff_of_subset ?_ |>.mpr ⟨d, ?_, ?_⟩)
  · intro x hx
    obtain ⟨hsize, hreach⟩ := Finset.mem_filter.mp hx
    exact Finset.mem_filter.mpr ⟨hsize, .head hholds hreach⟩
  · exact Finset.mem_filter.mpr ⟨Finset.mem_range.mpr hd, .single hholds⟩
  · intro hmem
    exact h d (.single hholds) (Finset.mem_filter.mp hmem).2

/-! ### Copies come to an end -/

/-- If the cells to be copied have fewer structs inside than levels are allowed, the bound on
levels is not what ends the loop. The heap `heap₀` is the one at the start. -/
theorem copiesTo_copyLevels {heap₀ heap : Heap} (hb : heap₀.Closed heap₀.size)
    (hsize : heap₀.size ≤ heap.size) (hsame : ∀ c < heap₀.size, heap.nested c = heap₀.nested c)
    (levels : Nat) (sources : List Nat)
    (hs : ∀ s ∈ sources, s < heap₀.size ∧ heap₀.AcyclicFrom s ∧ heap₀.height s < levels) :
    CopiesTo heap sources (heap.copyLevels levels sources) := by
  induction levels generalizing heap sources with
  | zero =>
    cases sources with
    | nil => exact .done heap
    | cons source rest =>
      have := (hs source List.mem_cons_self).2.2
      omega
  | succ levels ih =>
    cases sources with
    | nil => exact .done heap
    | cons source rest =>
      rw [copyLevels]
      refine .level (List.cons_ne_nil _ _) (ih ?_ ?_ _ ?_)
      · rw [size_appendCopies]
        exact hsize.trans (Nat.le_add_right ..)
      · intro c hc
        rw [nested_appendCopies_of_lt _ _ _ (hc.trans_le hsize), hsame c hc]
      · intro d hd
        obtain ⟨s, hmem, hd⟩ := List.mem_flatMap.mp hd
        obtain ⟨hlt, hacyclic, hheight⟩ := hs s hmem
        rw [hsame s hlt] at hd
        have hdlt := hb.2 s hlt d hd
        exact ⟨hdlt, hacyclic.inside hd, by have := height_lt hacyclic hdlt hd; omega⟩

/-- Copying an item comes to an end, with the heap that `copy` gives. -/
def CopyEnds (heap : Heap) (item : Item) : Prop :=
  ∀ cell, item.structCell? = some cell → CopiesTo heap [cell] (heap.copy item).2

/-- Copying items in turn comes to an end. -/
def CopiesEnd : Heap → List Item → Prop
  | _, [] => True
  | heap, item :: rest => heap.CopyEnds item ∧ CopiesEnd (heap.copy item).2 rest

/-- The copy of a struct comes to an end if no struct inside it is inside itself, and still does
when other structs have been copied. -/
theorem Grows.copyEnds {heap₀ heap : Heap} (hg : heap₀.Grows heap) (hb : heap₀.Closed heap₀.size)
    {item : Item}
    (hitem : ∀ cell, item.structCell? = some cell → cell < heap₀.size ∧ heap₀.AcyclicFrom cell) :
    heap.CopyEnds item := by
  intro cell hcell
  obtain ⟨hlt, hacyclic⟩ := hitem cell hcell
  have := copiesTo_copyLevels hb hg.size_le (fun c hc => hg.nested_eq hc) heap.size [cell] (by
    intro s hs
    obtain rfl := List.mem_singleton.mp hs
    exact ⟨hlt, hacyclic, (height_lt_size hacyclic hlt).trans_le hg.size_le⟩)
  simpa only [copy, hcell] using this

theorem copyEnds_of_acyclicFrom {heap : Heap} (hb : heap.Closed heap.size) {item : Item}
    (hitem : ∀ cell, item.structCell? = some cell → cell < heap.size ∧ heap.AcyclicFrom cell) :
    heap.CopyEnds item := (Grows.refl heap).copyEnds hb hitem

/-! ### Sound heaps -/

/-- Every reference leads to a cell of its kind, every struct stands in one slot at most, and no
struct is inside itself. -/
structure Sound (heap : Heap) (kinds : Nat → ContainerKind) : Prop where
  refers : ∀ c, ∀ item ∈ heap.elements c, item.Refers kinds heap.size
  slot_unique : ∀ c d d' i i', heap.structAt? d i = some c → heap.structAt? d' i' = some c →
    d = d' ∧ i = i'
  acyclic : heap.Acyclic

/-- The kinds of the cells of a heap to which structs were added. -/
def withStructs (heap : Heap) (kinds : Nat → ContainerKind) (c : Nat) : ContainerKind :=
  if c < heap.size then kinds c else .struct

/-- A struct that stands in no slot. -/
def Unowned (heap : Heap) (c : Nat) : Prop := ∀ d i, heap.structAt? d i ≠ some c

/-- Items that can be stored together: the structs among them are different and stand in no
slot. -/
structure Storable (heap : Heap) (kinds : Nat → ContainerKind) (items : List Item) : Prop where
  refers : ∀ item ∈ items, item.Refers kinds heap.size
  nodup : (structCells items).Nodup
  unowned : ∀ c ∈ structCells items, heap.Unowned c

namespace Sound

variable {heap heap' : Heap} {kinds : Nat → ContainerKind}

theorem lt_of_mem_nested (h : heap.Sound kinds) {c d : Nat} (hd : d ∈ heap.nested c) :
    d < heap.size := by
  obtain ⟨item, hitem, hcell⟩ := List.mem_filterMap.mp hd
  exact ((h.refers c item hitem).of_structCell? hcell).1

theorem closed (h : heap.Sound kinds) : heap.Closed heap.size :=
  ⟨le_rfl, fun _ _ _ hd => h.lt_of_mem_nested hd⟩

/-- A struct is in range if it stands in a slot. -/
theorem lt_of_structAt? (h : heap.Sound kinds) {c d i : Nat} (hc : heap.structAt? d i = some c) :
    c < heap.size := h.lt_of_mem_nested (mem_nested_of_structAt? hc)

/-- A heap without cells is sound. -/
theorem of_size_eq_zero (h : heap.size = 0) (kinds : Nat → ContainerKind) : heap.Sound kinds := by
  have hnone : ∀ c, heap.elements c = [] := fun c => elements_of_le (by omega)
  have hnested : ∀ c d, ¬ heap.Holds c d := by
    intro c d hd
    simp [Holds, nested, hnone, structCells] at hd
  refine ⟨fun c item hitem => ?_, fun c d d' i i' hc _ => ?_, fun c hc => ?_⟩
  · simp [hnone] at hitem
  · exact absurd (mem_nested_of_structAt? hc) (hnested d c)
  · cases hc with
    | single h => exact hnested _ _ h
    | tail _ h => exact hnested _ _ h

/-! ### Copying -/

/-- In a heap that has grown, the structs inside old cells are those that were inside before. -/
theorem transGen_of_grows (h : heap.Sound kinds) (hg : heap.Grows heap') {c d : Nat}
    (hc : c < heap.size) (hreach : TransGen heap'.Holds c d) :
    d < heap.size ∧ TransGen heap.Holds c d := by
  induction hreach with
  | single hholds =>
    rw [Holds, hg.nested_eq hc] at hholds
    exact ⟨h.lt_of_mem_nested hholds, .single hholds⟩
  | tail _ hholds ih =>
    obtain ⟨hlt, hreach⟩ := ih
    rw [Holds, hg.nested_eq hlt] at hholds
    exact ⟨h.lt_of_mem_nested hholds, hreach.tail hholds⟩

/-- The structs inside a new cell have greater numbers. -/
theorem lt_of_transGen_of_grows (hg : heap.Grows heap') {c d : Nat} (hc : heap.size ≤ c)
    (hreach : TransGen heap'.Holds c d) : c < d := by
  induction hreach with
  | single hholds => exact (hg.lt_nested _ _ hc hholds).1
  | tail _ hholds ih => exact ih.trans (hg.lt_nested _ _ (hc.trans ih.le) hholds).1

theorem withStructs_of_lt (heap : Heap) (kinds : Nat → ContainerKind) {c : Nat}
    (hc : c < heap.size) : heap.withStructs kinds c = kinds c := if_pos hc

/-- Copying structs keeps a heap sound. -/
theorem grow (h : heap.Sound kinds) (hg : heap.Grows heap') :
    heap'.Sound (heap.withStructs kinds) := by
  have old : ∀ {item : Item}, item.Refers kinds heap.size →
      item.Refers (heap.withStructs kinds) heap'.size := fun hitem =>
    hitem.mono hg.size_le fun c hc => withStructs_of_lt heap kinds hc
  refine ⟨fun c item hitem => ?_, fun c d d' i i' hd hd' => ?_, fun c hc => ?_⟩
  · by_cases hlt : c < heap.size
    · rw [hg.elements_eq c hlt] at hitem
      exact old (h.refers c item hitem)
    cases hcell : item.structCell? with
    | none =>
      obtain ⟨c₀, hitem⟩ := hg.others c (Nat.le_of_not_lt hlt) item hitem hcell
      exact old (h.refers c₀ item hitem)
    | some d =>
      have hd : d ∈ heap'.nested c := List.mem_filterMap.mpr ⟨item, hitem, hcell⟩
      obtain ⟨hcd, hlt'⟩ := hg.lt_nested c d (Nat.le_of_not_lt hlt) hd
      rw [Item.structCell?_eq_some_iff] at hcell
      subst hcell
      intro ref href
      obtain rfl : (⟨.struct, d⟩ : CellRef) = ref := Option.some.inj href
      exact ⟨hlt', if_neg (by simp only; omega)⟩
  · -- a struct in an old cell is an old one, a struct in a new cell a new one
    have split : ∀ d i, heap'.structAt? d i = some c → (d < heap.size ↔ c < heap.size) := by
      intro d i hd
      constructor
      · intro hlt
        rw [hg.structAt?_eq hlt] at hd
        exact h.lt_of_structAt? hd
      · intro hlt
        by_contra hle
        have := (hg.lt_nested d c (Nat.le_of_not_lt hle) (mem_nested_of_structAt? hd)).1
        omega
    by_cases hlt : c < heap.size
    · have h1 := (split d i hd).mpr hlt
      have h2 := (split d' i' hd').mpr hlt
      rw [hg.structAt?_eq h1] at hd
      rw [hg.structAt?_eq h2] at hd'
      exact h.slot_unique c d d' i i' hd hd'
    · exact hg.slot_unique c d d' i i' (Nat.le_of_not_lt (hlt ∘ (split d i hd).mp))
        (Nat.le_of_not_lt (hlt ∘ (split d' i' hd').mp)) hd hd'
  · by_cases hlt : c < heap.size
    · exact h.acyclic c (h.transGen_of_grows hg hlt hc).2
    · exact (lt_of_transGen_of_grows hg (Nat.le_of_not_lt hlt) hc).false

/-- In a sound heap the copy of an item comes to an end. -/
theorem copyEnds (h : heap.Sound kinds) {item : Item} (hitem : item.Refers kinds heap.size) :
    heap.CopyEnds item :=
  copyEnds_of_acyclicFrom h.closed fun cell hcell =>
    ⟨(hitem.of_structCell? hcell).1, h.acyclic.acyclicFrom cell⟩

theorem grows_copy (h : heap.Sound kinds) {item : Item} (hitem : item.Refers kinds heap.size) :
    heap.Grows (heap.copy item).2 := by
  cases hcell : item.structCell? with
  | none =>
    simp only [copy, hcell]
    exact Grows.refl heap
  | some cell =>
    refine (h.copyEnds hitem cell hcell).grows h.closed fun s hs => ?_
    obtain rfl := List.mem_singleton.mp hs
    exact (hitem.of_structCell? hcell).1

end Sound

/-- A struct that stands in no slot is not stored by copying others. -/
theorem Unowned.grow {heap heap' : Heap} {c : Nat} (h : heap.Unowned c) (hg : heap.Grows heap')
    (hc : c ≤ heap.size) : heap'.Unowned c := by
  intro d i hd
  by_cases hlt : d < heap.size
  · rw [hg.structAt?_eq hlt] at hd
    exact h d i hd
  · have := (hg.lt_nested d c (Nat.le_of_not_lt hlt) (mem_nested_of_structAt? hd)).1
    omega

/-- The number of the next cell is in no slot. -/
theorem Sound.unowned_size {heap : Heap} {kinds : Nat → ContainerKind} (h : heap.Sound kinds) :
    heap.Unowned heap.size := by
  intro d i hd
  exact (h.lt_of_structAt? hd).false

theorem structCell?_copy (heap : Heap) (item : Item) :
    (heap.copy item).1.structCell? = item.structCell?.map fun _ => heap.size := by
  cases hcell : item.structCell? with
  | none => simp only [copy, hcell, Option.map_none]
  | some cell =>
    simp only [copy, hcell, Option.map_some]
    rfl

/-- A struct that is copied takes at least one cell. -/
theorem Sound.size_lt_copy {heap : Heap} {kinds : Nat → ContainerKind} (h : heap.Sound kinds)
    {item : Item} {cell : Nat} (hitem : item.Refers kinds heap.size)
    (hcell : item.structCell? = some cell) : heap.size < (heap.copy item).2.size :=
  (h.copyEnds hitem cell hcell).size_le

/-- The copy of an item can be stored together with others. -/
theorem Storable.cons_copy {heap : Heap} {kinds : Nat → ContainerKind} {items : List Item}
    (hs : heap.Storable kinds items) (h : heap.Sound kinds)
    (hstruct : ∀ c, heap.size ≤ c → kinds c = .struct) {item : Item}
    (hitem : item.Refers kinds heap.size) :
    (heap.copy item).2.Storable kinds ((heap.copy item).1 :: items) := by
  have hg := h.grows_copy hitem
  have hrefers : ∀ {x : Item}, x.Refers kinds heap.size → x.Refers kinds (heap.copy item).2.size :=
    fun hx => hx.mono hg.size_le fun _ _ => rfl
  have hlt : ∀ c ∈ structCells items, c < heap.size := by
    intro c hc
    obtain ⟨x, hx, hcell⟩ := List.mem_filterMap.mp hc
    exact ((hs.refers x hx).of_structCell? hcell).1
  have hcopy := structCell?_copy heap item
  cases hcell : item.structCell? with
  | none =>
    have hsame : (heap.copy item).1 = item := by simp only [copy, hcell]
    have hcells : structCells (item :: items) = structCells items :=
      List.filterMap_cons_none hcell
    rw [hsame]
    refine ⟨fun x hx => ?_, hcells ▸ hs.nodup, fun c hc => ?_⟩
    · rcases List.mem_cons.mp hx with rfl | hx
      · exact hrefers hitem
      · exact hrefers (hs.refers x hx)
    · rw [hcells] at hc
      exact (hs.unowned c hc).grow hg (hlt c hc).le
  | some cell =>
    rw [hcell, Option.map_some] at hcopy
    refine ⟨fun x hx => ?_, ?_, fun c hc => ?_⟩
    · rcases List.mem_cons.mp hx with rfl | hx
      · rw [Item.structCell?_eq_some_iff] at hcopy
        rw [hcopy]
        intro ref href
        obtain rfl : (⟨.struct, heap.size⟩ : CellRef) = ref := Option.some.inj href
        exact ⟨h.size_lt_copy hitem hcell, hstruct _ le_rfl⟩
      · exact hrefers (hs.refers x hx)
    · rw [structCells, List.filterMap_cons_some hcopy, List.nodup_cons]
      exact ⟨fun hmem => (hlt _ hmem).false, hs.nodup⟩
    · rw [structCells, List.filterMap_cons_some hcopy] at hc
      rcases List.mem_cons.mp hc with rfl | hc
      · exact h.unowned_size.grow hg le_rfl
      · exact (hs.unowned c hc).grow hg (hlt c hc).le

theorem storable_nil (heap : Heap) (kinds : Nat → ContainerKind) : heap.Storable kinds [] :=
  ⟨fun _ h => absurd h List.not_mem_nil, List.nodup_nil, fun _ h => absurd h List.not_mem_nil⟩

section CopyingInTurn

/-! The heap at the start is `heap₀`; some items have been copied already. -/

variable {heap₀ : Heap} {kinds : Nat → ContainerKind}

/-- An item of the start can be copied later. -/
theorem Grows.refers {heap : Heap} (hg : heap₀.Grows heap) {item : Item}
    (hitem : item.Refers kinds heap₀.size) : item.Refers (heap₀.withStructs kinds) heap.size :=
  hitem.mono hg.size_le fun _ hc => Sound.withStructs_of_lt heap₀ kinds hc

theorem Sound.copyAllOnto_storable (h₀ : heap₀.Sound kinds) {heap : Heap} (hg : heap₀.Grows heap)
    {done : List Item} (items : List Item) (hdone : heap.Storable (heap₀.withStructs kinds) done)
    (hitems : ∀ item ∈ items, item.Refers kinds heap₀.size) :
    heap₀.Grows (heap.copyAllOnto done items).2 ∧
      (heap.copyAllOnto done items).2.Storable (heap₀.withStructs kinds)
        (heap.copyAllOnto done items).1 := by
  induction items generalizing heap done with
  | nil => exact ⟨hg, hdone⟩
  | cons item rest ih =>
    have hsound := h₀.grow hg
    have hitem := hg.refers (hitems item List.mem_cons_self)
    have hstruct : ∀ c, heap.size ≤ c → heap₀.withStructs kinds c = .struct := fun c hc =>
      if_neg (Nat.not_lt.mpr (hg.size_le.trans hc))
    exact ih (hg.trans (hsound.grows_copy hitem)) (hdone.cons_copy hsound hstruct hitem)
      fun x hx => hitems x (List.mem_cons_of_mem _ hx)

/-- The copy of an item can be stored. -/
theorem Sound.copy_storable (h₀ : heap₀.Sound kinds) {item : Item}
    (hitem : item.Refers kinds heap₀.size) :
    (heap₀.copy item).2.Storable (heap₀.withStructs kinds) [(heap₀.copy item).1] := by
  refine (h₀.copyAllOnto_storable (Grows.refl heap₀) [item] (storable_nil _ _) ?_).2
  intro x hx
  rwa [List.mem_singleton.mp hx]

/-- The copies of items can be stored together. -/
theorem Sound.copyAll_storable (h₀ : heap₀.Sound kinds) (items : List Item)
    (hitems : ∀ item ∈ items, item.Refers kinds heap₀.size) :
    heap₀.Grows (heap₀.copyAll items).2 ∧
      (heap₀.copyAll items).2.Storable (heap₀.withStructs kinds) (heap₀.copyAll items).1 := by
  obtain ⟨hg, hs⟩ := h₀.copyAllOnto_storable (Grows.refl heap₀) items (storable_nil _ _) hitems
  refine ⟨hg, fun item hitem => hs.refers item (List.mem_reverse.mp hitem), ?_, fun c hc => ?_⟩
  · simp only [copyAll, structCells, List.filterMap_reverse, List.nodup_reverse]
    exact hs.nodup
  · simp only [copyAll, structCells, List.filterMap_reverse, List.mem_reverse] at hc
    exact hs.unowned c hc

/-- In a sound heap the copies of items come to an end, one after the other. -/
theorem Sound.copiesEnd (h₀ : heap₀.Sound kinds) {heap : Heap} (hg : heap₀.Grows heap)
    {items : List Item} (hitems : ∀ item ∈ items, item.Refers kinds heap₀.size) :
    heap.CopiesEnd items := by
  induction items generalizing heap with
  | nil => trivial
  | cons item rest ih =>
    have hsound := h₀.grow hg
    have hitem := hg.refers (hitems item List.mem_cons_self)
    exact ⟨hsound.copyEnds hitem, ih (hg.trans (hsound.grows_copy hitem))
      fun x hx => hitems x (List.mem_cons_of_mem _ hx)⟩

end CopyingInTurn

/-! ### Storing -/

theorem elements_append (heap : Heap) (items : Array Item) (c : Nat) :
    (heap.append items).elements c = if c = heap.size then items.toList else heap.elements c := by
  split_ifs with h
  · rw [h, elements_append_size]
  · by_cases hlt : c < heap.size
    · exact elements_append_of_lt heap items hlt
    · rw [elements_of_le (Nat.le_of_not_lt hlt), elements_of_le (by rw [size_append]; omega)]

/-- A slot with a struct is an old one, or a slot of the new container. -/
theorem structAt?_append {heap : Heap} {items : Array Item} {c d i : Nat}
    (hd : (heap.append items).structAt? d i = some c) :
    heap.structAt? d i = some c ∨ (d = heap.size ∧ c ∈ structCells items.toList) := by
  obtain ⟨item, hitem, hcell⟩ := structAt?_eq_some_iff.mp hd
  rw [elements_append] at hitem
  split_ifs at hitem with hlast
  · exact .inr ⟨hlast, List.mem_filterMap.mpr ⟨item, List.mem_of_getElem? hitem, hcell⟩⟩
  · exact .inl (structAt?_eq_some_iff.mpr ⟨item, hitem, hcell⟩)

/-- Nothing contains a new container, so it closes no cycle. -/
theorem Sound.acyclic_append {heap : Heap} {kinds : Nat → ContainerKind} (h : heap.Sound kinds)
    {items : Array Item} (hs : heap.Storable kinds items.toList) : (heap.append items).Acyclic := by
  have hlt : ∀ {a b : Nat}, (heap.append items).Holds a b → b < heap.size := by
    intro a b hab
    obtain ⟨item, hitem, hcell⟩ := List.mem_filterMap.mp hab
    rw [elements_append] at hitem
    split_ifs at hitem
    · exact ((hs.refers item hitem).of_structCell? hcell).1
    · exact ((h.refers a item hitem).of_structCell? hcell).1
  have hend : ∀ {a b : Nat}, TransGen (heap.append items).Holds a b → b ≠ heap.size := by
    intro a b hab
    cases hab with
    | single hstep => exact (hlt hstep).ne
    | tail _ hstep => exact (hlt hstep).ne
  have hholds : ∀ {a b : Nat}, a ≠ heap.size → (heap.append items).Holds a b → heap.Holds a b := by
    intro a b ha hab
    rwa [Holds, nested, elements_append, if_neg ha] at hab
  have hold : ∀ {a b : Nat}, a ≠ heap.size → TransGen (heap.append items).Holds a b →
      TransGen heap.Holds a b := by
    intro a b ha hab
    induction hab with
    | single hstep => exact .single (hholds ha hstep)
    | tail hpath hstep ih => exact ih.tail (hholds (hend hpath) hstep)
  intro c hc
  exact h.acyclic c (hold (hend hc) hc)

/-- Items that can be stored make up a new container. -/
theorem Sound.append {heap : Heap} {kinds : Nat → ContainerKind} (h : heap.Sound kinds)
    (kind : ContainerKind) {items : Array Item} (hs : heap.Storable kinds items.toList) :
    (heap.append items).Sound (Function.update kinds heap.size kind) := by
  have hrefers : ∀ {x : Item}, x.Refers kinds heap.size →
      x.Refers (Function.update kinds heap.size kind) (heap.append items).size := by
    intro x hx
    refine hx.mono (by rw [size_append]; omega) fun c hc => ?_
    rw [Function.update_of_ne hc.ne]
  refine ⟨fun c item hitem => ?_, fun c d d' i i' hd hd' => ?_, h.acyclic_append hs⟩
  · rw [elements_append] at hitem
    split_ifs at hitem
    · exact hrefers (hs.refers item hitem)
    · exact hrefers (h.refers c item hitem)
  · rcases structAt?_append hd with hold | ⟨hnew, hmem⟩ <;>
      rcases structAt?_append hd' with hold' | ⟨hnew', hmem'⟩
    · exact h.slot_unique c d d' i i' hold hold'
    · exact absurd hold (hs.unowned c hmem' d i)
    · exact absurd hold' (hs.unowned c hmem d' i')
    · refine slot_unique_of_nodup (heap.append items) [heap.size] ?_ ?_ ?_ hd hd'
      · rw [List.flatMap_singleton, nested, elements_append_size]
        exact hs.nodup
      · exact List.mem_singleton.mpr hnew
      · exact List.mem_singleton.mpr hnew'

@[simp] theorem size_setElement (heap : Heap) (cell index : Nat) (item : Item) :
    (heap.setElement cell index item).size = heap.size := by
  simp [setElement, size]

theorem elements_setElement (heap : Heap) (cell index : Nat) (item : Item) (c : Nat) :
    (heap.setElement cell index item).elements c =
      if c = cell then (heap.elements c).set index item else heap.elements c := by
  simp only [setElement, elements, Array.getD_eq_getD_getElem?, Array.getElem?_modify]
  by_cases hc : c = cell
  · subst hc
    cases h : heap.cells[c]? <;> simp
  · simp [hc, Ne.symm hc]

/-- One more edge closes no cycle unless its ends were connected the other way. -/
theorem transGen_or_of_edge {R R' : Nat → Nat → Prop} {t r : Nat}
    (h : ∀ a b, R' a b → R a b ∨ (a = t ∧ b = r)) {a b : Nat} (hab : TransGen R' a b) :
    TransGen R a b ∨ (ReflTransGen R a t ∧ ReflTransGen R r b) := by
  induction hab with
  | single hstep =>
    rcases h _ _ hstep with hold | ⟨rfl, rfl⟩
    · exact .inl (.single hold)
    · exact .inr ⟨.refl, .refl⟩
  | tail _ hstep ih =>
    rcases h _ _ hstep with hold | ⟨rfl, rfl⟩
    · rcases ih with hpath | ⟨hto, hfrom⟩
      · exact .inl (hpath.tail hold)
      · exact .inr ⟨hto, hfrom.tail hold⟩
    · rcases ih with hpath | ⟨hto, hfrom⟩
      · exact .inr ⟨hpath.to_reflTransGen, .refl⟩
      · exact .inr ⟨hto, .refl⟩

/-- An item that can be stored replaces an element, if it does not contain the container. -/
theorem Sound.setElement {heap : Heap} {kinds : Nat → ContainerKind} (h : heap.Sound kinds)
    {cell index : Nat} {item : Item} (hs : heap.Storable kinds [item])
    (hapart : ∀ c, item.structCell? = some c → ¬ ReflTransGen heap.Holds c cell) :
    (heap.setElement cell index item).Sound kinds := by
  have hmem : ∀ {c : Nat} {x : Item}, x ∈ (heap.setElement cell index item).elements c →
      x ∈ heap.elements c ∨ (c = cell ∧ x = item) := by
    intro c x hx
    rw [elements_setElement] at hx
    split_ifs at hx with hc
    · rcases List.mem_or_eq_of_mem_set hx with hx | rfl
      · exact .inl hx
      · exact .inr ⟨hc, rfl⟩
    · exact .inl hx
  have hslot : ∀ {c d i : Nat}, (heap.setElement cell index item).structAt? d i = some c →
      heap.structAt? d i = some c ∨ (d = cell ∧ i = index ∧ item.structCell? = some c) := by
    intro c d i hd
    obtain ⟨x, hx, hcell⟩ := structAt?_eq_some_iff.mp hd
    rw [elements_setElement] at hx
    split_ifs at hx with hc
    · rw [List.getElem?_set] at hx
      split_ifs at hx with hi hlt
      · obtain rfl := Option.some.inj hx
        exact .inr ⟨hc, hi.symm, hcell⟩
      · exact .inl (structAt?_eq_some_iff.mpr ⟨x, hx, hcell⟩)
    · exact .inl (structAt?_eq_some_iff.mpr ⟨x, hx, hcell⟩)
  have hunowned : ∀ c, item.structCell? = some c → heap.Unowned c := fun c hc =>
    hs.unowned c (List.mem_filterMap.mpr ⟨item, List.mem_singleton_self item, hc⟩)
  refine ⟨fun c x hx => ?_, fun c d d' i i' hd hd' => ?_, fun c hc => ?_⟩
  · rw [size_setElement]
    rcases hmem hx with hx | ⟨-, rfl⟩
    · exact h.refers c x hx
    · exact hs.refers x (List.mem_singleton_self x)
  · rcases hslot hd with hold | ⟨rfl, rfl, hnew⟩ <;> rcases hslot hd' with hold' | ⟨rfl, rfl, hnew'⟩
    · exact h.slot_unique c d d' i i' hold hold'
    · exact absurd hold (hunowned c hnew' d i)
    · exact absurd hold' (hunowned c hnew d' i')
    · exact ⟨rfl, rfl⟩
  · cases hr : item.structCell? with
    | none =>
      refine h.acyclic c (TransGen.mono (fun a b hab => ?_) _ _ hc)
      obtain ⟨x, hx, hb⟩ := List.mem_filterMap.mp hab
      rcases hmem hx with hx | ⟨-, rfl⟩
      · exact List.mem_filterMap.mpr ⟨x, hx, hb⟩
      · rw [hr] at hb
        cases hb
    | some r =>
      have hedge : ∀ a b, (heap.setElement cell index item).Holds a b →
          heap.Holds a b ∨ (a = cell ∧ b = r) := by
        intro a b hab
        obtain ⟨x, hx, hb⟩ := List.mem_filterMap.mp hab
        rcases hmem hx with hx | ⟨rfl, rfl⟩
        · exact .inl (List.mem_filterMap.mpr ⟨x, hx, hb⟩)
        · exact .inr ⟨rfl, Option.some.inj (hb.symm.trans hr)⟩
      rcases transGen_or_of_edge hedge hc with hpath | ⟨hto, hfrom⟩
      · exact h.acyclic c hpath
      · exact hapart r hr (hfrom.trans hto)

end Heap

end StackScript
