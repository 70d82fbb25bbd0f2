import StackScript.Proofs.Operation.Ownership

/-!
# What operations do to containers

A container is a cell that any number of references lead to, from the stacks and from other
containers, so a write to it is seen far away. Operations write to no cell that is there already,
with one exception: a `SETITEM` that succeeds replaces one element of one cell. All others leave the
cells as they are (`Workspace.Preserves`), and what they append is made of items that were there and
of references to cells that were not.

Main statements: `Plain.run_preserves` for every operation but `SETITEM`, and `setItem_stores`.
-/

namespace StackScript

/-- A reference that the item may be leads to none of the first `size` cells. -/
def Item.Beyond (size : Nat) (item : Item) : Prop := ∀ ref, item.ref? = some ref → size ≤ ref.cell

theorem Item.beyond_of_ref?_eq_none {item : Item} (h : item.ref? = none) (size : Nat) :
    item.Beyond size := by
  intro ref href
  rw [h] at href
  cases href

theorem Item.Beyond.mono {size size' : Nat} {item : Item} (h : item.Beyond size') (hle : size ≤ size') :
    item.Beyond size := fun ref href => hle.trans (h ref href)

namespace Workspace

/-- The item is on a stack or in a container. -/
def Has (w : Workspace) (item : Item) : Prop :=
  w.OnStack item ∨ ∃ cell, item ∈ w.heap.elements cell

/-- The cells that were there are as they were. There may be new ones, and no item has come up that
refers to an old cell. -/
structure Preserves (w w' : Workspace) : Prop where
  size_le : w.heap.size ≤ w'.heap.size
  elements_eq : ∀ c < w.heap.size, w'.heap.elements c = w.heap.elements c
  known : ∀ item, w'.Has item → w.Has item ∨ item.Beyond w.heap.size

namespace Preserves

variable {w w' w'' : Workspace}

theorem trans (h : w.Preserves w') (h' : w'.Preserves w'') : w.Preserves w'' where
  size_le := h.size_le.trans h'.size_le
  elements_eq c hc := by rw [h'.elements_eq c (hc.trans_le h.size_le), h.elements_eq c hc]
  known item hitem := by
    rcases h'.known item hitem with hmid | hnew
    · exact h.known item hmid
    · exact .inr (hnew.mono h.size_le)

/-- The stacks get items that were there or refer to no old cell. -/
theorem of_shuffles (h : w.Shuffles w') : w.Preserves w' where
  size_le := h.heap ▸ Nat.le_refl _
  elements_eq c _ := by rw [h.heap]
  known item hitem := by
    rcases hitem with hstack | ⟨cell, hcell⟩
    · rcases h.items item hstack with hold | hnone
      · exact .inl (.inl hold)
      · exact .inr (Item.beyond_of_ref?_eq_none hnone _)
    · exact .inl (.inr ⟨cell, h.heap ▸ hcell⟩)

theorem of_took (h : w.Took w') : w.Preserves w' := of_shuffles h.shuffles

theorem refl (w : Workspace) : w.Preserves w := of_took (.refl w)

/-- More items on the evaluation stack, which were there or refer to no old cell. -/
theorem append_eval (h : w.Preserves w') (items : List Item)
    (hitems : ∀ item ∈ items, w.Has item ∨ item.Beyond w.heap.size) :
    w.Preserves { w' with eval := items ++ w'.eval } where
  size_le := h.size_le
  elements_eq := h.elements_eq
  known item hitem := by
    rcases hitem with (hitem | hitem) | hitem
    · rcases List.mem_append.mp hitem with hitem | hitem
      · exact hitems item hitem
      · exact h.known item (.inl (.inl hitem))
    · exact h.known item (.inl (.inr hitem))
    · exact h.known item (.inr hitem)

/-- Structs were copied. -/
theorem of_grows {heap : Heap} (h : w.heap.Grows heap) : w.Preserves { w with heap } where
  size_le := h.size_le
  elements_eq := h.elements_eq
  known item hitem := by
    rcases hitem with hstack | ⟨cell, hcell⟩
    · exact .inl (.inl hstack)
    by_cases hold : cell < w.heap.size
    · exact .inl (.inr ⟨cell, h.elements_eq cell hold ▸ hcell⟩)
    -- A new cell has structs of the copy in it, and otherwise what an old cell has.
    cases hstruct : item.structCell? with
    | none =>
      obtain ⟨source, hsource⟩ := h.others cell (Nat.le_of_not_lt hold) item hcell hstruct
      exact .inl (.inr ⟨source, hsource⟩)
    | some inner =>
      right
      have hinner : inner ∈ heap.nested cell := List.mem_filterMap.mpr ⟨item, hcell, hstruct⟩
      obtain ⟨hlt, -⟩ := h.lt_nested cell inner (Nat.le_of_not_lt hold) hinner
      rw [Item.structCell?_eq_some_iff] at hstruct
      subst hstruct
      intro ref href
      obtain rfl : (⟨.struct, inner⟩ : CellRef) = ref := Option.some.inj href
      simp only
      omega

/-- A new container of items that were there or refer to no old cell. -/
theorem alloc (h : w.Preserves w') (kind : ContainerKind) {items : Array Item}
    (hitems : ∀ item ∈ items.toList, w.Has item ∨ item.Beyond w.heap.size) :
    w.Preserves { w' with
      heap := (w'.heap.alloc kind items).2, eval := (w'.heap.alloc kind items).1 :: w'.eval } where
  size_le := by
    show w.heap.size ≤ (w'.heap.append items).size
    rw [Heap.size_append]
    exact h.size_le.trans (Nat.le_succ _)
  elements_eq c hc := by
    rw [← h.elements_eq c hc]
    exact Heap.elements_append_of_lt _ _ (hc.trans_le h.size_le)
  known item hitem := by
    rcases hitem with (hitem | hitem) | ⟨cell, hcell⟩
    · rcases List.mem_cons.mp hitem with rfl | hitem
      · right
        intro ref href
        obtain rfl : (⟨kind, w'.heap.size⟩ : CellRef) = ref := Option.some.inj href
        exact h.size_le
      · exact h.known item (.inl (.inl hitem))
    · exact h.known item (.inl (.inr hitem))
    · replace hcell : item ∈ (w'.heap.append items).elements cell := hcell
      rw [Heap.elements_append] at hcell
      split_ifs at hcell
      · exact hitems item hcell
      · exact h.known item (.inr ⟨cell, hcell⟩)

end Preserves

end Workspace

/-! ### Copies -/

namespace Heap

theorem size_le_copyLevels (heap : Heap) (levels : Nat) (sources : List Nat) :
    heap.size ≤ (heap.copyLevels levels sources).size := by
  induction levels generalizing heap sources with
  | zero => cases sources <;> exact le_rfl
  | succ levels ih =>
    cases sources with
    | nil => exact le_rfl
    | cons source rest =>
      rw [copyLevels]
      refine le_trans ?_ (ih _ _)
      rw [size_appendCopies]
      omega

theorem size_le_copy (heap : Heap) (item : Item) : heap.size ≤ (heap.copy item).2.size := by
  unfold copy
  split
  · exact size_le_copyLevels heap _ _
  · exact le_rfl

theorem copy_of_other (heap : Heap) {item : Item} (h : item.structCell? = none) :
    heap.copy item = (item, heap) := by
  simp only [copy, h]

theorem copy_of_struct (heap : Heap) {item : Item} {cell : Nat} (h : item.structCell? = some cell) :
    (heap.copy item).1 = .container ⟨.struct, heap.size⟩ := by
  simp only [copy, h]

/-- What was copied is a new struct, or the item itself. -/
theorem beyond_copy (heap : Heap) (item : Item) :
    (heap.copy item).1 = item ∨ (heap.copy item).1.Beyond heap.size := by
  cases hcell : item.structCell? with
  | none => exact .inl (by rw [copy_of_other heap hcell])
  | some cell =>
    right
    rw [copy_of_struct heap hcell]
    intro ref href
    obtain rfl : (⟨.struct, heap.size⟩ : CellRef) = ref := Option.some.inj href
    exact le_rfl

theorem mem_copyAllOnto {size : Nat} {heap : Heap} (hsize : size ≤ heap.size) {done items : List Item}
    {item : Item} (h : item ∈ (heap.copyAllOnto done items).1) :
    item ∈ done ∨ item ∈ items ∨ item.Beyond size := by
  induction items generalizing heap done with
  | nil => exact .inl h
  | cons first rest ih =>
    replace h : item ∈ ((heap.copy first).2.copyAllOnto ((heap.copy first).1 :: done) rest).1 := h
    rcases ih (hsize.trans (size_le_copy heap first)) h with hdone | hrest | hnew
    · rcases List.mem_cons.mp hdone with heq | hdone
      · rw [heq]
        rcases heap.beyond_copy first with hsame | hnew
        · rw [hsame]
          exact .inr (.inl List.mem_cons_self)
        · exact .inr (.inr (hnew.mono hsize))
      · exact .inl hdone
    · exact .inr (.inl (List.mem_cons_of_mem _ hrest))
    · exact .inr (.inr hnew)

theorem mem_copyAll {heap : Heap} {items : List Item} {item : Item}
    (h : item ∈ (heap.copyAll items).1) : item ∈ items ∨ item.Beyond heap.size := by
  have hmem : item ∈ (heap.copyAllOnto [] items).1 := List.mem_reverse.mp h
  simpa using mem_copyAllOnto le_rfl hmem

end Heap

open Workspace Operation

/-! ### Operations that write to no cell -/

namespace Operation

/-- An operation that leaves the cells as they are, whether it succeeds or fails. -/
def KeepsCells (op : Operation Unit) : Prop :=
  ∀ w, w.Sound → Outcome (fun _ => w.Preserves) (fun _ => w.Preserves) (op w)

theorem Moves.keepsCells {op : Operation Unit} (h : Moves op) : KeepsCells op := fun w _ =>
  (h w).mono (fun _ _ => Preserves.of_shuffles) fun _ _ hf => .of_took hf.2

/-- After operands have been taken the cells are as they were. -/
theorem bind_preserves {α : Type} {w₀ w : Workspace} {post : α → Workspace → Prop} {m : Operation α}
    {f : α → Operation Unit} (hm : Outcome post w₀.Fails (m w))
    (hf : ∀ a w', post a w' → Outcome (fun _ => w₀.Preserves) (fun _ => w₀.Preserves) (f a w')) :
    Outcome (fun _ => w₀.Preserves) (fun _ => w₀.Preserves) ((m >>= f) w) :=
  (hm.mono (fun _ _ ha => ha) fun _ _ hfails => Preserves.of_took hfails.2).bind hf

end Operation

theorem newContainer_keepsCells (instruction : String) (kind : ContainerKind) :
    KeepsCells (newContainer instruction kind) := by
  intro w _
  refine bind_preserves (popSize_takes (.refl w) instruction) fun count w₁ h₁ => ?_
  refine (Preserves.of_took h₁).alloc kind fun item hitem => ?_
  rw [Array.toList_replicate] at hitem
  rw [List.eq_of_mem_replicate hitem]
  exact .inr (Item.beyond_of_ref?_eq_none rfl _)

/-- The structs among the items are copied first, and the copies go into a new array. -/
theorem pack_keepsCells : KeepsCells ContainerOp.pack.run := by
  rintro w ⟨kinds, hw⟩
  refine bind_preserves (popInt32_takes (.refl w) _) fun count w₁ h₁ => ?_
  have hw₁ := hw.took h₁
  rw [run_bind, run_get]
  by_cases hrange : count < 0 ∨ Stack.hasFewer w₁.eval count.toNat
  · simp only [hrange, if_true]
    exact .of_took h₁
  simp only [hrange, if_false]
  rw [run_bind]
  show Outcome _ _ (pushContainer _ _ _)
  obtain ⟨hg, -⟩ := hw₁.heap.copyAll_storable (w₁.eval.take count.toNat) fun item hitem =>
    hw₁.onStack item (.inl (List.mem_of_mem_take hitem))
  have hdropped : w₁.Preserves { w₁ with eval := w₁.eval.drop count.toNat } :=
    .of_took ⟨List.drop_suffix .., rfl, rfl⟩
  have hcopied := hdropped.trans (Preserves.of_grows hg)
  refine (Preserves.of_took h₁).trans (hcopied.alloc .array fun item hitem => ?_)
  rw [List.toList_toArray] at hitem
  exact (Heap.mem_copyAll hitem).imp_left fun hitem => .inl (.inl (List.mem_of_mem_take hitem))

theorem unpack_keepsCells : KeepsCells ContainerOp.unpack.run := by
  intro w _
  refine bind_preserves (popContainer_takes (.refl w) _) fun ref w₁ h₁ => ?_
  have helements := (Preserves.of_took h₁.1).append_eval (w₁.heap.elements ref.cell)
    fun item hitem => .inl (.inr ⟨ref.cell, h₁.1.heap ▸ hitem⟩)
  exact helements.append_eval [_] fun item hitem => by
    rw [List.mem_singleton.mp hitem]
    exact .inr (Item.beyond_of_ref?_eq_none rfl _)

theorem pickItem_keepsCells : KeepsCells ContainerOp.pickItem.run := by
  intro w _
  refine bind_preserves (popCount_takes (.refl w) _) fun index w₁ h₁ => ?_
  refine bind_preserves (popContainer_takes h₁ _) fun ref w₂ h₂ => ?_
  have hw₂ : w.Preserves w₂ := .of_took h₂.1
  rw [run_bind, element?_eq]
  cases helement : w₂.heap.element? ref.cell index with
  | none => exact hw₂
  | some element =>
    refine hw₂.append_eval [element] fun item hitem => .inl (.inr ⟨ref.cell, ?_⟩)
    rw [List.mem_singleton.mp hitem, ← h₂.1.heap]
    rw [← Heap.getElem?_elements] at helement
    exact List.mem_of_getElem? helement

/-- **No operation but `SETITEM` writes to a cell.** -/
theorem Plain.run_preserves (verifier : Verifier) {op : Plain} (hop : op ≠ .container .setItem) :
    KeepsCells (op.run verifier) := by
  cases op with
  | container op =>
    cases op with
    | arraySize => exact arraySize_moves.keepsCells
    | pack => exact pack_keepsCells
    | unpack => exact unpack_keepsCells
    | pickItem => exact pickItem_keepsCells
    | setItem => exact absurd rfl hop
    | newArray => exact newContainer_keepsCells _ .array
    | newStruct => exact newContainer_keepsCells _ .struct
  | _ =>
    refine Moves.keepsCells (Plain.run_moves verifier fun _ h => ?_)
    cases h

/-! ### The operation that writes -/

/-- The index that an item stands for as an operand: an integer of 32 bits that is not negative. -/
def Item.index? (item : Item) : Option Nat :=
  match item.integer? with
  | some value =>
      if Number.TwosComplement.fits32 value = true ∧ 0 ≤ value then some value.toNat else none
  | none => none

namespace Operation

/-! Taking off an operand tells which item it was. -/

variable (instruction : String) (w : Workspace)

theorem popInteger_pops : Outcome
    (fun value w' => ∃ item, item.integer? = some value ∧ w.eval = item :: w'.eval)
    (fun _ _ => True) (popInteger instruction w) := by
  unfold popInteger
  rw [run_bind, pop_eq]
  cases heval : w.eval with
  | nil => trivial
  | cons item rest =>
    simp only
    cases hvalue : item.integer? with
    | none => trivial
    | some value => exact ⟨item, hvalue, rfl⟩

theorem popInt32_pops : Outcome
    (fun value w' => Number.TwosComplement.fits32 value = true ∧
      ∃ item, item.integer? = some value ∧ w.eval = item :: w'.eval)
    (fun _ _ => True) (popInt32 instruction w) := by
  refine (popInteger_pops instruction w).bind fun value w₁ h₁ => ?_
  cases hfits : Number.TwosComplement.fits32 value with
  | true => exact ⟨hfits, h₁⟩
  | false => trivial

theorem popCount_pops : Outcome
    (fun index w' => ∃ item, item.index? = some index ∧ w.eval = item :: w'.eval)
    (fun _ _ => True) (popCount instruction w) := by
  refine (popInt32_pops instruction w).bind fun value w₁ h₁ => ?_
  obtain ⟨hfits, item, hitem, heval⟩ := h₁
  by_cases hneg : value < 0
  · simp only [hneg, if_true]
    trivial
  · simp only [hneg, if_false]
    refine ⟨item, ?_, heval⟩
    simp [Item.index?, hitem, hfits, Int.not_lt.mp hneg]

theorem popContainer_pops : Outcome (fun ref w' => w.eval = .container ref :: w'.eval)
    (fun _ _ => True) (popContainer instruction w) := by
  unfold popContainer
  rw [run_bind, pop_eq]
  cases heval : w.eval with
  | nil => trivial
  | cons item rest =>
    cases item with
    | container ref => rfl
    | _ => trivial

end Operation

namespace Workspace

/-- What is stored for a value: a struct that is new, or the value itself if it is no struct. -/
def StoredFor (w w' : Workspace) (value stored : Item) : Prop :=
  match value.structCell? with
  | none => stored = value
  | some _ => ∃ cell, stored = .container ⟨.struct, cell⟩ ∧ w.heap.size ≤ cell ∧ cell < w'.heap.size

/-- The value on top has been stored at the index below it, into the container below that. No other
element of the cells that were there has changed, and no item has come up that refers to an old
cell. -/
structure Stores (w w' : Workspace) (target : CellRef) (index : Nat) (value stored : Item) : Prop where
  operands : ∃ position, position.index? = some index ∧
    w.eval = value :: position :: .container target :: w'.eval
  lt_size : target.cell < w.heap.size
  lt_length : index < w.heap.length target.cell
  storedFor : w.StoredFor w' value stored
  size_le : w.heap.size ≤ w'.heap.size
  elements_eq : ∀ c < w.heap.size, w'.heap.elements c =
    if c = target.cell then (w.heap.elements c).set index stored else w.heap.elements c
  known : ∀ item, w'.Has item → w.Has item ∨ item.Beyond w.heap.size

/-- A copy that has been made is what is stored. -/
theorem SoundAs.storedFor_copy {w w' : Workspace} {kinds : Nat → ContainerKind} (h : w.SoundAs kinds)
    {value : Item} (hvalue : w.OnStack value) (hsize : w'.heap.size = (w.heap.copy value).2.size) :
    w.StoredFor w' value (w.heap.copy value).1 := by
  unfold StoredFor
  split
  · rename_i hother
    rw [Heap.copy_of_other _ hother]
  · rename_i cell hstruct
    refine ⟨w.heap.size, Heap.copy_of_struct _ hstruct, le_rfl, ?_⟩
    rw [hsize]
    exact h.heap.size_lt_copy (h.onStack value hvalue) hstruct

/-- An element is replaced by an item that was there or refers to no old cell. -/
theorem Preserves.known_setElement {w w' : Workspace} (h : w.Preserves w') {target index : Nat}
    {stored : Item} (hstored : w.Has stored ∨ stored.Beyond w.heap.size) :
    ∀ item, { w' with heap := w'.heap.setElement target index stored }.Has item →
      w.Has item ∨ item.Beyond w.heap.size := by
  intro item hitem
  rcases hitem with hstack | ⟨cell, hcell⟩
  · exact h.known item (.inl hstack)
  · replace hcell : item ∈ (w'.heap.setElement target index stored).elements cell := hcell
    rw [Heap.elements_setElement] at hcell
    split_ifs at hcell
    · rcases List.mem_or_eq_of_mem_set hcell with hold | rfl
      · exact h.known item (.inr ⟨cell, hold⟩)
      · exact hstored
    · exact h.known item (.inr ⟨cell, hcell⟩)

end Workspace

/-- **`SETITEM` writes to one slot.** -/
theorem setItem_stores {w : Workspace} (hw : w.Sound) : Outcome
    (fun _ w' => ∃ target index value stored, w.Stores w' target index value stored)
    (fun _ => w.Preserves) (ContainerOp.setItem.run w) := by
  obtain ⟨kinds, hw⟩ := hw
  unfold ContainerOp.run
  simp only
  rw [run_bind, popCopy_eq]
  cases heval : w.eval with
  | nil => exact .refl w
  | cons value rest =>
    have hvalue : w.OnStack value := .inl (heval ▸ List.mem_cons_self)
    obtain ⟨w₁, hw₁⟩ : ∃ w₁ : Workspace, w₁ = { w with eval := rest, heap := (w.heap.copy value).2 } :=
      ⟨_, rfl⟩
    have hcopied : w.Preserves w₁ := by
      have hrest : w.Took { w with eval := rest } := ⟨heval ▸ List.suffix_cons .., rfl, rfl⟩
      rw [hw₁]
      exact (Preserves.of_took hrest).trans (.of_grows (hw.heap.grows_copy (hw.onStack value hvalue)))
    show Outcome _ _ ((popCount _ >>= _) _)
    rw [← hw₁]
    refine (((popCount_takes (.refl w₁) _).and (popCount_pops _ w₁)).mono (fun _ _ h => h)
      fun _ _ h => hcopied.trans (.of_took h.1.2)).bind fun index w₂ h₂ => ?_
    refine (((popContainer_takes h₂.1 _).and (popContainer_pops _ w₂)).mono (fun _ _ h => h)
      fun _ _ h => hcopied.trans (.of_took h.1.2)).bind fun ref w₃ h₃ => ?_
    have hw₃ : w.Preserves w₃ := hcopied.trans (.of_took h₃.1.1)
    rw [run_bind]
    show Outcome _ _ ((if index < w₃.heap.length ref.cell then modify _ else throw _ : Operation Unit) w₃)
    by_cases hindex : index < w₃.heap.length ref.cell
    · rw [if_pos hindex]
      obtain ⟨position, hposition, hrest⟩ := h₂.2
      have hrest₁ : w₁.eval = rest := by rw [hw₁]
      have hold : ref.cell < w.heap.size := by
        have hmem : Item.container ref ∈ w.eval := by
          rw [heval, ← hrest₁]
          exact List.mem_cons_of_mem _ h₃.1.2
        exact (hw.onStack _ (.inl hmem) ref rfl).1
      have hheap : w₃.heap = (w.heap.copy value).2 := by rw [h₃.1.1.heap, hw₁]
      refine ⟨ref, index, value, (w.heap.copy value).1, ?_⟩
      constructor
      case operands =>
        refine ⟨position, hposition, ?_⟩
        rw [heval, ← h₃.2, ← hrest, hrest₁]
      case lt_size => exact hold
      case lt_length =>
        rwa [← Heap.length_elements, ← hw₃.elements_eq _ hold]
      case storedFor =>
        refine hw.storedFor_copy hvalue ?_
        rw [← hheap]
        exact Heap.size_setElement ..
      case size_le => exact hw₃.size_le.trans_eq (Heap.size_setElement ..).symm
      case elements_eq =>
        intro c hc
        rw [← hw₃.elements_eq c hc]
        exact Heap.elements_setElement ..
      case known =>
        refine hw₃.known_setElement ((w.heap.beyond_copy value).imp_left fun hsame => ?_)
        rw [hsame]
        exact .inl hvalue
    · rw [if_neg hindex]
      exact hw₃

end StackScript
