import StackScript.Proofs.Heap.Ownership
import StackScript.Proofs.Operation.Moves

/-!
# Operations keep structs owned

A workspace is sound if its heap is and every reference on its stacks leads to a cell of its kind.
Operations that only move items keep the heap, so they keep it sound. Of the others, those that
take elements out put references on the stacks that were in the heap, and those that store copy
first what they store.

Main statement: every operation keeps a workspace sound, whether it succeeds or fails
(`Plain.run_sound`).
-/

namespace StackScript

namespace Workspace

/-- The heap is sound, and so are the references on the stacks. -/
structure SoundAs (w : Workspace) (kinds : Nat → ContainerKind) : Prop where
  heap : w.heap.Sound kinds
  onStack : ∀ item, w.OnStack item → item.Refers kinds w.heap.size

/-- The cells have kinds for which the workspace is sound. -/
def Sound (w : Workspace) : Prop := ∃ kinds, w.SoundAs kinds

variable {w w' : Workspace} {kinds : Nat → ContainerKind}

theorem SoundAs.shuffles (h : w.SoundAs kinds) (hs : w.Shuffles w') : w'.SoundAs kinds := by
  refine ⟨hs.heap ▸ h.heap, fun item hitem => ?_⟩
  rw [hs.heap]
  rcases hs.items item hitem with hold | hnone
  · exact h.onStack item hold
  · exact Item.refers_of_ref?_eq_none hnone kinds _

theorem SoundAs.took (h : w.SoundAs kinds) (ht : w.Took w') : w'.SoundAs kinds :=
  h.shuffles ht.shuffles

/-- More items on the evaluation stack. -/
theorem SoundAs.append_eval (h : w.SoundAs kinds) (items : List Item)
    (hitems : ∀ item ∈ items, item.Refers kinds w.heap.size) :
    { w with eval := items ++ w.eval }.SoundAs kinds := by
  refine ⟨h.heap, fun item hitem => ?_⟩
  rcases hitem with hitem | hitem
  · rcases List.mem_append.mp hitem with hitem | hitem
    · exact hitems item hitem
    · exact h.onStack item (.inl hitem)
  · exact h.onStack item (.inr hitem)

/-- The workspace after structs were copied. -/
theorem SoundAs.grow (h : w.SoundAs kinds) {heap : Heap} (hg : w.heap.Grows heap) :
    { w with heap }.SoundAs (w.heap.withStructs kinds) :=
  ⟨h.heap.grow hg, fun item hitem => hg.refers (h.onStack item hitem)⟩

/-- A new container of items that can be stored, on top of the evaluation stack. -/
theorem SoundAs.alloc (h : w.SoundAs kinds) (kind : ContainerKind) {items : Array Item}
    (hs : w.heap.Storable kinds items.toList) :
    Sound { w with heap := (w.heap.alloc kind items).2, eval := (w.heap.alloc kind items).1 :: w.eval } := by
  refine ⟨Function.update kinds w.heap.size kind, h.heap.append kind hs, fun item hitem => ?_⟩
  have hold : ∀ {x : Item}, w.OnStack x →
      x.Refers (Function.update kinds w.heap.size kind) (w.heap.append items).size := by
    intro x hx
    refine (h.onStack x hx).mono (by rw [Heap.size_append]; omega) fun c hc => ?_
    rw [Function.update_of_ne hc.ne]
  rcases hitem with hitem | hitem
  · rcases List.mem_cons.mp hitem with rfl | hitem
    · intro ref href
      obtain rfl : (⟨kind, w.heap.size⟩ : CellRef) = ref := Option.some.inj href
      refine ⟨?_, Function.update_self ..⟩
      show w.heap.size < (w.heap.append items).size
      rw [Heap.size_append]
      omega
    · exact hold (.inl hitem)
  · exact hold (.inr hitem)

end Workspace

open Workspace

namespace Operation

variable {w₀ w : Workspace}

theorem sound_of_fails {kinds : Nat → ContainerKind} (h : w₀.SoundAs kinds) {fault : Fault}
    (hf : w₀.Fails fault w) : w.Sound := ⟨kinds, h.took hf.2⟩

/-- An operation that keeps a workspace sound. -/
def KeepsSound (op : Operation Unit) : Prop :=
  ∀ w, w.Sound → Outcome (fun _ => Workspace.Sound) (fun _ => Workspace.Sound) (op w)

/-- After operands have been taken the workspace is still sound. -/
theorem bind_takes {α : Type} {kinds : Nat → ContainerKind} (h : w₀.SoundAs kinds)
    {post : α → Workspace → Prop} {m : Operation α} {f : α → Operation Unit}
    (hm : Outcome post w₀.Fails (m w))
    (hf : ∀ a w', post a w' → Outcome (fun _ => Workspace.Sound) (fun _ => Workspace.Sound) (f a w')) :
    Outcome (fun _ => Workspace.Sound) (fun _ => Workspace.Sound) ((m >>= f) w) :=
  (hm.mono (fun _ _ ha => ha) fun _ _ => sound_of_fails h).bind hf

theorem Moves.keepsSound {op : Operation Unit} (h : Moves op) : KeepsSound op := by
  rintro w ⟨kinds, hw⟩
  exact (h w).mono (fun _ _ hs => ⟨kinds, hw.shuffles hs⟩) fun _ _ => sound_of_fails hw

end Operation

open Operation

/-! ### Containers -/

theorem Heap.storable_of_ref?_eq_none (heap : Heap) (kinds : Nat → ContainerKind) {items : List Item}
    (h : ∀ item ∈ items, item.ref? = none) : heap.Storable kinds items := by
  have hcells : Heap.structCells items = [] :=
    List.filterMap_eq_nil_iff.mpr fun item hitem => Item.structCell?_of_ref?_eq_none (h item hitem)
  refine ⟨fun item hitem => Item.refers_of_ref?_eq_none (h item hitem) _ _, ?_, ?_⟩
  · rw [hcells]
    exact List.nodup_nil
  · rw [hcells]
    exact fun _ hc => absurd hc List.not_mem_nil

theorem newContainer_keepsSound (instruction : String) (kind : ContainerKind) :
    KeepsSound (newContainer instruction kind) := by
  rintro w ⟨kinds, hw⟩
  refine bind_takes hw (popSize_takes (.refl w) instruction) fun count w₁ h₁ => ?_
  refine (hw.took h₁).alloc kind (Heap.storable_of_ref?_eq_none _ _ fun item hitem => ?_)
  rw [Array.toList_replicate] at hitem
  rw [List.eq_of_mem_replicate hitem]
  rfl

/-- Packing copies the structs it takes off, and puts the copies into a new array. -/
theorem pack_keepsSound : KeepsSound ContainerOp.pack.run := by
  rintro w ⟨kinds, hw⟩
  refine bind_takes hw (popInt32_takes (.refl w) _) fun count w₁ h₁ => ?_
  have hw₁ := hw.took h₁
  rw [run_bind, run_get]
  by_cases hrange : count < 0 ∨ Stack.hasFewer w₁.eval count.toNat
  · simp only [hrange, if_true]
    exact ⟨kinds, hw₁⟩
  simp only [hrange, if_false]
  rw [run_bind]
  show Outcome _ _ (pushContainer _ _ _)
  obtain ⟨hg, hs⟩ := hw₁.heap.copyAll_storable (w₁.eval.take count.toNat) fun item hitem =>
    hw₁.onStack item (.inl (List.mem_of_mem_take hitem))
  have hrest : ({ w₁ with eval := w₁.eval.drop count.toNat } : Workspace).SoundAs kinds :=
    hw₁.took ⟨List.drop_suffix .., rfl, rfl⟩
  exact (hrest.grow hg).alloc .array (by rwa [List.toList_toArray])

/-- Unpacking puts the elements of a container on the stack. -/
theorem unpack_keepsSound : KeepsSound ContainerOp.unpack.run := by
  rintro w ⟨kinds, hw⟩
  refine bind_takes hw (popContainer_takes (.refl w) _) fun ref w₁ h₁ => ?_
  have hw₁ := hw.took h₁.1
  have hitems := hw₁.append_eval _ (hw₁.heap.refers ref.cell)
  have hcount : ∀ {w : Workspace}, w.SoundAs kinds → ∀ n : Nat,
      { w with eval := .integer n :: w.eval }.Sound := fun h n =>
    ⟨kinds, h.append_eval [.integer n] fun item hitem => by
      rw [List.mem_singleton.mp hitem]
      exact Item.refers_of_ref?_eq_none rfl _ _⟩
  exact hcount hitems _

theorem pickItem_keepsSound : KeepsSound ContainerOp.pickItem.run := by
  rintro w ⟨kinds, hw⟩
  refine bind_takes hw (popCount_takes (.refl w) _) fun index w₁ h₁ => ?_
  refine bind_takes hw (popContainer_takes h₁ _) fun ref w₂ h₂ => ?_
  have hw₂ := hw.took h₂.1
  rw [run_bind, element?_eq]
  cases helement : w₂.heap.element? ref.cell index with
  | none => exact ⟨kinds, hw₂⟩
  | some element =>
    refine ⟨kinds, hw₂.append_eval [element] fun item hitem => ?_⟩
    rw [List.mem_singleton.mp hitem]
    rw [← Heap.getElem?_elements] at helement
    exact hw₂.heap.refers ref.cell element (List.mem_of_getElem? helement)

/-- A copy is taken off before anything else, so it does not contain the container it goes into. -/
theorem setItem_keepsSound : KeepsSound ContainerOp.setItem.run := by
  rintro w ⟨kinds, hw⟩
  unfold ContainerOp.run
  simp only
  rw [run_bind, popCopy_eq]
  cases heval : w.eval with
  | nil => exact ⟨kinds, hw⟩
  | cons item rest =>
    have hitem := hw.onStack item (.inl (heval ▸ List.mem_cons_self))
    have hrest : ({ w with eval := rest } : Workspace).SoundAs kinds :=
      hw.took ⟨heval ▸ List.suffix_cons .., rfl, rfl⟩
    have hg := hw.heap.grows_copy hitem
    have hw₁ := hrest.grow hg
    show Outcome _ _ ((popCount _ >>= _) { w with eval := rest, heap := (w.heap.copy item).2 })
    refine bind_takes hw₁ (popCount_takes (.refl _) _) fun index w₂ h₂ => ?_
    refine bind_takes hw₁ (popContainer_takes h₂ _) fun ref w₃ h₃ => ?_
    have hw₃ := hw₁.took h₃.1
    rw [run_bind]
    show Outcome _ _ ((if index < w₃.heap.length ref.cell then modify _ else throw _ : Operation Unit) w₃)
    by_cases hindex : index < w₃.heap.length ref.cell
    · rw [if_pos hindex]
      have hheap : w₃.heap = (w.heap.copy item).2 := h₃.1.heap
      have hs : w₃.heap.Storable (w.heap.withStructs kinds) [(w.heap.copy item).1] :=
        hheap ▸ hw.heap.copy_storable hitem
      refine ⟨w.heap.withStructs kinds, hw₃.heap.setElement hs fun c hc hreach => ?_, fun x hx => ?_⟩
      · -- the container is an old cell, and the copy contains new ones only
        have hc : w.heap.size = c := by
          rw [Heap.structCell?_copy] at hc
          cases hstruct : item.structCell? with
          | none => simp [hstruct] at hc
          | some cell => simpa [hstruct] using hc
        have hold : ref.cell < w.heap.size := (hrest.onStack _ (.inl h₃.2) ref rfl).1
        rw [hheap] at hreach
        rcases Relation.reflTransGen_iff_eq_or_transGen.mp hreach with heq | hpath
        · omega
        · have := Heap.Sound.lt_of_transGen_of_grows hg hc.le hpath
          omega
      · show x.Refers _ (w₃.heap.setElement _ _ _).size
        rw [Heap.size_setElement]
        exact hw₃.onStack x hx
    · rw [if_neg hindex]
      exact ⟨_, hw₃⟩

/-- **Every operation keeps structs owned.** -/
theorem Plain.run_sound (verifier : Verifier) (op : Plain) : KeepsSound (op.run verifier) := by
  cases op with
  | container op =>
    cases op with
    | arraySize => exact arraySize_moves.keepsSound
    | pack => exact pack_keepsSound
    | unpack => exact unpack_keepsSound
    | pickItem => exact pickItem_keepsSound
    | setItem => exact setItem_keepsSound
    | newArray => exact newContainer_keepsSound _ .array
    | newStruct => exact newContainer_keepsSound _ .struct
  | _ =>
    refine Moves.keepsSound (Plain.run_moves verifier fun _ h => ?_)
    cases h

end StackScript
