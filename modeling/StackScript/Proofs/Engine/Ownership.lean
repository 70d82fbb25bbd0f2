import StackScript.Proofs.Engine.Inversion
import StackScript.Proofs.Operation.Ownership

/-!
# Structs are owned in every run

Scripts share containers freely, and an array may contain itself. Structs are values all the same:
whatever is stored into a container is copied first, so that a struct never gets a second place to
stand in and never gets inside itself.

The invariant is that the workspace is sound (`Workspace.Sound`). Every instruction keeps it
(`Engine.Owned.performs`), hence every step (`Engine.Owned.step`), hence every run. Main statement:
`Engine.structs_owned`, for all runs that start with empty stacks and an empty heap.
-/

namespace StackScript

open Workspace Control

namespace Engine

/-- The host calls are those that come with the machine, and the workspace is sound. -/
structure Owned (e : Engine) : Prop where
  service : e.service = .builtin
  work : e.work.Sound

variable {e : Engine}

theorem Owned.push (h : e.Owned) {item : Item} (hitem : item.ref? = none) :
    Workspace.Sound { e.work with eval := item :: e.work.eval } := by
  obtain ⟨kinds, hwork⟩ := h.work
  refine ⟨kinds, hwork.append_eval [item] fun x hx => ?_⟩
  obtain rfl := List.mem_singleton.mp hx
  exact Item.refers_of_ref?_eq_none hitem kinds _

/-- Instructions that work on the workspace alone keep it sound. -/
theorem keepsSound_of_operation? {found : Instruction} {op : Operation Unit}
    (hop : operation? e found = some op) : Operation.KeepsSound op := by
  rcases operation?_cases hop with ⟨data, rfl⟩ | ⟨verifier, plain, rfl⟩
  · exact Operation.Moves.keepsSound fun w =>
      Operation.push_moves (Took.refl w).shuffles (.inr rfl)
  · exact Plain.run_sound verifier plain

/-- Whatever an instruction does, structs stay owned. -/
theorem Owned.performs {frame : Frame} {rest : Stack Frame} {found : Instruction}
    {result : EStateM.Result Fault Engine Unit} (h : e.Owned)
    (hp : Performs e frame rest found result) :
    Outcome (fun _ => Owned) (fun _ => Owned) result := by
  obtain ⟨kinds, hwork⟩ := h.work
  have hbool := Operation.popBool_takes (.refl e.work)
  cases hp with
  | refuse => exact h
  | work hop hrun =>
    have hsound := keepsSound_of_operation? hop e.work h.work
    rw [hrun] at hsound
    exact ⟨h.service, hsound⟩
  | workFault hop hrun =>
    have hsound := keepsSound_of_operation? hop e.work h.work
    rw [hrun] at hsound
    exact ⟨h.service, hsound⟩
  | branch _ _ hpop | skip _ hpop =>
    rw [hpop] at hbool
    exact ⟨h.service, kinds, hwork.took hbool⟩
  | branchFault hpop =>
    rw [hpop] at hbool
    exact ⟨h.service, kinds, hwork.took hbool.2⟩
  | container => exact ⟨h.service, h.push rfl⟩
  | hash => exact ⟨h.service, h.push rfl⟩
  | move | enter | missing | nested | tail | leave => exact ⟨h.service, h.work⟩

/-- Structs stay owned in a step. -/
theorem Owned.step (h : e.Owned) : e.step.Owned := by
  refine step_of_advance h (fun _ _ _ h => ⟨h.service, h.work⟩) fun frame rest hframes => ?_
  have hadvances := advances hframes
  generalize advance e = result at hadvances ⊢
  cases hadvances with
  | atEnd | refuse | undecoded => exact ⟨h.service, h.work⟩
  | @perform found _ _ next _ _ _ =>
    have hmoved : { e with frames := { frame with cursor := next } :: rest }.Owned :=
      ⟨h.service, h.work⟩
    exact hmoved.performs (Control.performs hmoved.service rfl found)

/-- Structs stay owned in a run. -/
theorem Owned.steps (h : e.Owned) (n : Nat) : (Engine.step^[n] e).Owned := by
  induction n with
  | zero => exact h
  | succ n ih =>
    rw [Function.iterate_succ_apply']
    exact ih.step

end Engine

/-! ### What owned means -/

namespace Workspace

/-- The reference is on a stack or in a container. -/
def Mentions (w : Workspace) (ref : CellRef) : Prop :=
  ∃ item, (w.OnStack item ∨ ∃ cell, item ∈ w.heap.elements cell) ∧ item.ref? = some ref

variable {w : Workspace} {kinds : Nat → ContainerKind}

theorem SoundAs.kind_eq (h : w.SoundAs kinds) {ref : CellRef} (href : w.Mentions ref) :
    kinds ref.cell = ref.kind := by
  obtain ⟨item, hstack | ⟨cell, hcell⟩, hitem⟩ := href
  · exact (h.onStack item hstack ref hitem).2
  · exact (h.heap.refers cell item hcell ref hitem).2

theorem mentions_of_element? {cell index : Nat} {ref : CellRef}
    (h : w.heap.element? cell index = some (.container ref)) : w.Mentions ref := by
  rw [← Heap.getElem?_elements] at h
  exact ⟨_, .inr ⟨cell, List.mem_of_getElem? h⟩, rfl⟩

/-- A struct stands in one slot at most, whatever the kind of the reference in it. -/
theorem SoundAs.slot_eq (h : w.SoundAs kinds) {c d d' i i' : Nat} {kind kind' : ContainerKind}
    (hstruct : w.Mentions ⟨.struct, c⟩) (hslot : w.heap.element? d i = some (.container ⟨kind, c⟩))
    (hslot' : w.heap.element? d' i' = some (.container ⟨kind', c⟩)) : d = d' ∧ i = i' := by
  have hc : kinds c = .struct := h.kind_eq hstruct
  obtain rfl : kind = .struct := (h.kind_eq (mentions_of_element? hslot)).symm.trans hc
  obtain rfl : kind' = .struct := (h.kind_eq (mentions_of_element? hslot')).symm.trans hc
  refine h.heap.slot_unique c d d' i i' ?_ ?_
  · rw [Heap.structAt?, hslot]
    rfl
  · rw [Heap.structAt?, hslot']
    rfl

end Workspace

namespace Engine

/-- An engine before its run: the host calls are those that come with the machine, the stacks are
empty and there are no containers. Scripts may be loaded and a script table may be there. -/
structure Fresh (e : Engine) : Prop where
  service : e.service = .builtin
  eval : e.work.eval = []
  alt : e.work.alt = []
  heap : e.work.heap.size = 0

theorem Fresh.owned {e : Engine} (h : e.Fresh) : e.Owned := by
  refine ⟨h.service, fun _ => .array, .of_size_eq_zero h.heap _, fun item hitem => ?_⟩
  rw [OnStack, h.eval, h.alt] at hitem
  simp at hitem

/-- **Structs are values.** After any number of steps a struct stands in one slot at most of one
container at most, no struct is inside itself, and copying any items of the evaluation stack, as
`PACK` and `SETITEM` do, comes to an end. -/
theorem structs_owned (e : Engine) (h : e.Fresh) (n : Nat) :
    let w := (Engine.step^[n] e).work
    (∀ c, w.Mentions ⟨.struct, c⟩ → ∀ d d' i i' kind kind',
      w.heap.element? d i = some (.container ⟨kind, c⟩) →
      w.heap.element? d' i' = some (.container ⟨kind', c⟩) → d = d' ∧ i = i') ∧
    w.heap.Acyclic ∧
    ∀ items, (∀ item ∈ items, item ∈ w.eval) → w.heap.CopiesEnd items := by
  obtain ⟨kinds, hsound⟩ := (h.owned.steps n).work
  refine ⟨fun c hc d d' i i' kind kind' => hsound.slot_eq hc, hsound.heap.acyclic, ?_⟩
  intro items hitems
  exact hsound.heap.copiesEnd (.refl _) fun item hitem => hsound.onStack item (.inl (hitems item hitem))

/-- An engine with a script that stores a struct into another one: `PUSH1 NEWSTRUCT DUP PUSH0 PUSH1
NEWSTRUCT SETITEM`. -/
def storing : Engine :=
  (Engine.new .secp256k1).load (.ofBytes [0x51, 0xc6, 0x76, 0x00, 0x51, 0xc6, 0xc4]) false

/-- After seven steps the copy, which is the third cell, stands in the first one. -/
theorem structs_owned_storing :
    storing.Fresh ∧ (Engine.step^[7] storing).work.heap.nested 0 = [2] ∧
    (∀ d i, (Engine.step^[7] storing).work.heap.element? d i = some (.container ⟨.struct, 2⟩) →
      d = 0 ∧ i = 0) ∧
    (Engine.step^[7] storing).work.heap.Acyclic ∧
    (Engine.step^[7] storing).work.heap.CopiesEnd (Engine.step^[7] storing).work.eval := by
  have hfresh : storing.Fresh := ⟨rfl, rfl, rfl, rfl⟩
  have hnested : (Engine.step^[7] storing).work.heap.nested 0 = [2] := by decide +kernel
  have hslot : (Engine.step^[7] storing).work.heap.element? 0 0 = some (.container ⟨.struct, 2⟩) := by
    decide +kernel
  have howned := structs_owned storing hfresh 7
  -- The engine is not evaluated any further.
  generalize Engine.step^[7] storing = e at hnested hslot howned ⊢
  obtain ⟨hunique, hacyclic, hends⟩ := howned
  refine ⟨hfresh, hnested, fun d i hd => ?_, hacyclic, hends _ fun _ h => h⟩
  exact hunique 2 (mentions_of_element? hslot) d 0 i 0 _ _ hd hslot

end Engine

end StackScript
