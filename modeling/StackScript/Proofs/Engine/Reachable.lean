import StackScript.Proofs.Engine.Ownership

/-!
# Engines that can come about

Between steps the host may load scripts, set breakpoints, end a pause, move the items on the stacks
around and hand over new ones. `Engine.Reachable` says which engines it can get in this way from one
whose stacks and heap are empty, as long as there are only the host calls that come with the
machine.

Structs are owned in all of them (`Engine.Reachable.owned`). What is new compared to a run is that
the host builds items: a literal that mentions no existing item is built in new cells, each of which
stands in one slot at most (`Heap.Sound.build`).
-/

namespace StackScript

mutual

/-- Whether a literal mentions no item that exists already. -/
def Literal.isNew : Literal → Bool
  | .container _ elements => Literal.allNew elements
  | .existing _ => false
  | .integer _ | .boolean _ | .bytes _ | .object .. => true

/-- Whether none of some literals mentions an item that exists already. -/
def Literal.allNew : List Literal → Bool
  | [] => true
  | literal :: rest => literal.isNew && Literal.allNew rest

end

namespace Heap

/-- Items have been built: the heap is sound and its old cells have the same kinds, the items can be
stored together, the structs among them are new, and no old struct has got into a slot. -/
structure Builds (heap : Heap) (kinds : Nat → ContainerKind) (items : List Item) (heap' : Heap)
    (kinds' : Nat → ContainerKind) : Prop where
  sound : heap'.Sound kinds'
  size_le : heap.size ≤ heap'.size
  kinds_eq : ∀ c < heap.size, kinds' c = kinds c
  storable : heap'.Storable kinds' items
  new : ∀ c ∈ structCells items, heap.size ≤ c
  unowned : ∀ c < heap.size, heap.Unowned c → heap'.Unowned c

variable {heap heap' heap'' : Heap} {kinds kinds' kinds'' : Nat → ContainerKind}

/-- An item that is no reference needs no cell. -/
theorem Sound.builds_of_ref?_eq_none (h : heap.Sound kinds) {item : Item} (hitem : item.ref? = none)
    (objects : Nat) : heap.Builds kinds [item] { heap with objects } kinds := by
  have hcells : structCells [item] = [] :=
    List.filterMap_cons_none (Item.structCell?_of_ref?_eq_none hitem)
  refine ⟨⟨h.refers, h.slot_unique, h.acyclic⟩, le_rfl, fun _ _ => rfl, ?_, ?_, fun _ _ hc => hc⟩
  · exact storable_of_ref?_eq_none _ _ (by simpa using hitem)
  · rw [hcells]
    exact fun _ hc => absurd hc List.not_mem_nil

/-- Items built one after the other can be stored together. -/
theorem Builds.cons {item : Item} {items : List Item} (h : heap.Builds kinds [item] heap' kinds')
    (h' : heap'.Builds kinds' items heap'' kinds'') :
    heap.Builds kinds (item :: items) heap'' kinds'' := by
  have hitem := h.storable.refers item (List.mem_singleton_self item)
  have hcells : ∀ c, item.structCell? = some c →
      heap.size ≤ c ∧ c < heap'.size ∧ heap'.Unowned c := by
    intro c hc
    have hmem : c ∈ structCells [item] := List.mem_filterMap.mpr ⟨item, List.mem_singleton_self _, hc⟩
    exact ⟨h.new c hmem, (hitem.of_structCell? hc).1, h.storable.unowned c hmem⟩
  have hmem : ∀ c ∈ structCells (item :: items),
      item.structCell? = some c ∨ c ∈ structCells items := by
    intro c hc
    obtain ⟨x, hx, hxc⟩ := List.mem_filterMap.mp hc
    rcases List.mem_cons.mp hx with rfl | hx
    · exact .inl hxc
    · exact .inr (List.mem_filterMap.mpr ⟨x, hx, hxc⟩)
  refine ⟨h'.sound, h.size_le.trans h'.size_le, ?_, ⟨?_, ?_, ?_⟩, ?_, ?_⟩
  · intro c hc
    rw [h'.kinds_eq c (hc.trans_le h.size_le), h.kinds_eq c hc]
  · intro x hx
    rcases List.mem_cons.mp hx with rfl | hx
    · exact hitem.mono h'.size_le h'.kinds_eq
    · exact h'.storable.refers x hx
  · -- The cells of the later items are beyond those of the first one.
    cases hstruct : item.structCell? with
    | none =>
      rw [structCells, List.filterMap_cons_none hstruct]
      exact h'.storable.nodup
    | some c =>
      rw [structCells, List.filterMap_cons_some hstruct, List.nodup_cons]
      refine ⟨fun hc => ?_, h'.storable.nodup⟩
      have hle := h'.new c hc
      have hlt := (hcells c hstruct).2.1
      omega
  · intro c hc
    rcases hmem c hc with hc | hc
    · obtain ⟨-, hlt, hunowned⟩ := hcells c hc
      exact h'.unowned c hlt hunowned
    · exact h'.storable.unowned c hc
  · intro c hc
    rcases hmem c hc with hc | hc
    · exact (hcells c hc).1
    · exact h.size_le.trans (h'.new c hc)
  · intro c hc hunowned
    exact h'.unowned c (hc.trans_le h.size_le) (h.unowned c hc hunowned)

theorem Sound.builds_nil (h : heap.Sound kinds) : heap.Builds kinds [] heap kinds :=
  ⟨h, le_rfl, fun _ _ => rfl, storable_nil _ _, fun _ hc => absurd hc List.not_mem_nil,
    fun _ _ hc => hc⟩

/-- A new container of items that were built. -/
theorem Builds.alloc {items : List Item} (h : heap.Builds kinds items heap' kinds')
    (kind : ContainerKind) :
    heap.Builds kinds [(heap'.alloc kind items.toArray).1] (heap'.alloc kind items.toArray).2
      (Function.update kinds' heap'.size kind) := by
  have hsize : (heap'.alloc kind items.toArray).2.size = heap'.size + 1 := size_append ..
  have hstorable : heap'.Storable kinds' items.toArray.toList := by
    rw [List.toList_toArray]
    exact h.storable
  have hnew : ∀ c ∈ structCells [(heap'.alloc kind items.toArray).1], c = heap'.size := by
    intro c hc
    obtain ⟨x, hx, hxc⟩ := List.mem_filterMap.mp hc
    rw [List.mem_singleton.mp hx, Item.structCell?_eq_some_iff] at hxc
    cases hxc
    rfl
  -- A slot of the new container holds one of the items, none of which is an old struct.
  have hunowned : ∀ c, heap'.Unowned c → c ∉ structCells items →
      (heap'.alloc kind items.toArray).2.Unowned c := by
    intro c hc hmem d i hd
    rcases structAt?_append hd with hold | ⟨-, hitems⟩
    · exact hc d i hold
    · rw [List.toList_toArray] at hitems
      exact hmem hitems
  have hlt : ∀ c ∈ structCells items, c < heap'.size := by
    intro c hc
    obtain ⟨x, hx, hxc⟩ := List.mem_filterMap.mp hc
    exact ((h.storable.refers x hx).of_structCell? hxc).1
  refine ⟨h.sound.append kind hstorable, ?_, ?_, ⟨?_, ?_, ?_⟩, ?_, ?_⟩
  · have hle := h.size_le
    omega
  · intro c hc
    have hle := h.size_le
    rw [Function.update_of_ne (by omega), h.kinds_eq c hc]
  · intro x hx ref href
    rw [List.mem_singleton.mp hx] at href
    cases href
    exact ⟨by rw [hsize]; exact Nat.lt_succ_self _, Function.update_self ..⟩
  · refine (List.nodup_singleton _).filterMap fun a b c ha hb => ?_
    rw [Item.structCell?_eq_some_iff.mp ha, Item.structCell?_eq_some_iff.mp hb]
  · intro c hc
    rw [hnew c hc]
    exact hunowned _ h.sound.unowned_size fun hmem => (hlt _ hmem).false
  · intro c hc
    rw [hnew c hc]
    exact h.size_le
  · intro c hc hold
    refine hunowned c (h.unowned c hc hold) fun hmem => ?_
    have hle := h.new c hmem
    omega

mutual

/-- **Building keeps a heap sound.** -/
theorem Sound.build {heap : Heap} {kinds : Nat → ContainerKind} (h : heap.Sound kinds)
    (literal : Literal) (hnew : literal.isNew = true) :
    ∃ kinds', heap.Builds kinds [(literal.build heap).1] (literal.build heap).2 kinds' := by
  cases literal with
  | integer | boolean | bytes => exact ⟨kinds, h.builds_of_ref?_eq_none rfl heap.objects⟩
  | object name tag => exact ⟨kinds, h.builds_of_ref?_eq_none rfl (heap.objects + 1)⟩
  | existing item => cases hnew
  | container kind elements =>
    obtain ⟨kinds', hbuilds⟩ := h.buildAll elements (by simpa [Literal.isNew] using hnew)
    exact ⟨_, hbuilds.alloc kind⟩

theorem Sound.buildAll {heap : Heap} {kinds : Nat → ContainerKind} (h : heap.Sound kinds)
    (literals : List Literal) (hnew : Literal.allNew literals = true) :
    ∃ kinds', heap.Builds kinds (Literal.buildAll heap literals).1
      (Literal.buildAll heap literals).2 kinds' := by
  cases literals with
  | nil => exact ⟨kinds, h.builds_nil⟩
  | cons literal rest =>
    rw [Literal.allNew, Bool.and_eq_true] at hnew
    obtain ⟨kinds', hfirst⟩ := h.build literal hnew.1
    obtain ⟨kinds'', hrest⟩ := hfirst.sound.buildAll rest hnew.2
    exact ⟨kinds'', hfirst.cons hrest⟩

end

end Heap

namespace Engine

open Workspace

/-- Handing over a new item keeps structs owned. -/
theorem Owned.push_literal {e : Engine} (h : e.Owned) {literal : Literal}
    (hnew : literal.isNew = true) : (e.push literal).Owned := by
  obtain ⟨kinds, hwork⟩ := h.work
  obtain ⟨kinds', hbuilds⟩ := hwork.heap.build literal hnew
  refine ⟨h.service, kinds', hbuilds.sound, fun item hitem => ?_⟩
  have hold : ∀ {x : Item}, e.work.OnStack x → x.Refers kinds' (literal.build e.work.heap).2.size :=
    fun hx => (hwork.onStack _ hx).mono hbuilds.size_le hbuilds.kinds_eq
  rcases hitem with hitem | hitem
  · rcases List.mem_cons.mp hitem with rfl | hitem
    · exact hbuilds.storable.refers _ (List.mem_singleton_self _)
    · exact hold (.inl hitem)
  · exact hold (.inr hitem)

/-- What the host can get an engine to, with the host calls that come with the machine. -/
inductive Reachable : Engine → Prop where
  /-- Nothing has run yet. -/
  | fresh {e : Engine} : e.Fresh → Reachable e
  | step {e : Engine} : Reachable e → Reachable e.step
  | load {e : Engine} (script : Script) (pushOnly : Bool) : Reachable e → Reachable (e.load script pushOnly)
  | resume {e : Engine} : Reachable e → Reachable e.resume
  /-- Breakpoints are set or removed. -/
  | setBreakpoints {e : Engine} (breakpoints : Breakpoints) : Reachable e → Reachable { e with breakpoints }
  | dispose {e : Engine} : Reachable e → Reachable e.dispose
  /-- A new item is put on the evaluation stack. -/
  | push {e : Engine} {literal : Literal} : literal.isNew = true → Reachable e → Reachable (e.push literal)
  /-- Items of the stacks are moved around or dropped. -/
  | shuffle {e : Engine} {work : Workspace} : e.work.Shuffles work → Reachable e → Reachable { e with work }

/-- **Structs are owned in every engine that can come about.** -/
theorem Reachable.owned {e : Engine} (h : e.Reachable) : e.Owned := by
  induction h with
  | fresh h => exact h.owned
  | step _ ih => exact ih.step
  | load _ _ _ ih => exact ⟨ih.service, ih.work⟩
  | @resume e _ ih =>
    unfold Engine.resume
    split
    · exact ⟨ih.service, ih.work⟩
    · exact ih
  | setBreakpoints _ _ ih => exact ⟨ih.service, ih.work⟩
  | dispose _ ih => exact ⟨ih.service, ih.work⟩
  | push hnew _ ih => exact ih.push_literal hnew
  | shuffle hmoved _ ih =>
    obtain ⟨kinds, hwork⟩ := ih.work
    exact ⟨ih.service, kinds, hwork.shuffles hmoved⟩

end Engine

end StackScript
