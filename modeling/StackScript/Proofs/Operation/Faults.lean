import StackScript.Proofs.Operation.Moves

/-!
# What a failed operation leaves

An operation that fails has taken operands off the evaluation stack and done nothing else to the
stacks: no item was pushed, moved or replaced. The heap may have grown by the copy of a struct that
was to be stored.

Main statement: `Plain.run_fails`, for every operation.
-/

namespace StackScript

namespace Workspace

/-- Operands were taken off, and the stacks are otherwise the same. -/
structure Dropped (w w' : Workspace) : Prop where
  eval : w'.eval <:+ w.eval
  alt : w'.alt = w.alt

/-- The fault is none of decoding, and the stacks have lost operands at most. -/
def FailsClean (w : Workspace) (fault : Fault) (w' : Workspace) : Prop :=
  (∀ cause, fault ≠ .decode cause) ∧ w.Dropped w'

variable {w w' w'' : Workspace} {fault : Fault}

theorem Fails.clean (h : w.Fails fault w') : w.FailsClean fault w' :=
  ⟨h.1, h.2.eval, h.2.alt⟩

/-- Operands were taken off before. -/
theorem Dropped.failsClean (h : w.Dropped w') (hf : w'.Fails fault w'') : w.FailsClean fault w'' :=
  ⟨hf.1, hf.2.eval.trans h.eval, hf.2.alt.trans h.alt⟩

end Workspace

open Workspace Operation

namespace Operation

/-- An operation that, if it fails, has taken operands at most. -/
def Clean (op : Operation Unit) : Prop := ∀ w, Outcome (fun _ _ => True) w.FailsClean (op w)

theorem Moves.clean {op : Operation Unit} (h : Moves op) : Clean op := fun w =>
  (h w).mono (fun _ _ _ => trivial) fun _ _ => Fails.clean

/-- After operands have been taken only what follows can fail. -/
theorem bind_clean {α : Type} {w₀ w : Workspace} {post : α → Workspace → Prop} {m : Operation α}
    {f : α → Operation Unit} (hm : Outcome post w₀.Fails (m w))
    (hf : ∀ a w', post a w' → Outcome (fun _ _ => True) w₀.FailsClean (f a w')) :
    Outcome (fun _ _ => True) w₀.FailsClean ((m >>= f) w) :=
  (hm.mono (fun _ _ h => h) fun _ _ => Fails.clean).bind hf

end Operation

/-! ### Containers -/

theorem newContainer_clean (instruction : String) (kind : ContainerKind) :
    Clean (newContainer instruction kind) := fun w =>
  bind_clean (popSize_takes (.refl w) instruction) fun _ _ _ => trivial

theorem pack_clean : Clean ContainerOp.pack.run := by
  intro w
  refine bind_clean (popInt32_takes (.refl w) _) fun count w₁ h₁ => ?_
  rw [run_bind, run_get]
  by_cases hrange : count < 0 ∨ Stack.hasFewer w₁.eval count.toNat
  · simp only [hrange, if_true]
    exact ⟨fun _ => nofun, h₁.eval, h₁.alt⟩
  · simp only [hrange, if_false]
    trivial

theorem unpack_clean : Clean ContainerOp.unpack.run := fun w =>
  bind_clean (popContainer_takes (.refl w) _) fun _ _ _ => trivial

theorem pickItem_clean : Clean ContainerOp.pickItem.run := by
  intro w
  refine bind_clean (popCount_takes (.refl w) _) fun index w₁ h₁ => ?_
  refine bind_clean (popContainer_takes h₁ _) fun ref w₂ h₂ => ?_
  rw [run_bind, element?_eq]
  cases w₂.heap.element? ref.cell index with
  | none => exact ⟨fun _ => nofun, h₂.1.eval, h₂.1.alt⟩
  | some element => trivial

/-- The value is taken off and copied first, so that a failure may leave a copy in the heap. -/
theorem setItem_clean : Clean ContainerOp.setItem.run := by
  intro w
  unfold ContainerOp.run
  simp only
  rw [run_bind, popCopy_eq]
  cases heval : w.eval with
  | nil => exact ⟨fun _ => nofun, List.suffix_rfl, rfl⟩
  | cons item rest =>
    have hdropped : w.Dropped { w with eval := rest, heap := (w.heap.copy item).2 } :=
      ⟨heval ▸ List.suffix_cons .., rfl⟩
    show Outcome _ _ ((popCount _ >>= _) { w with eval := rest, heap := (w.heap.copy item).2 })
    refine ((popCount_takes (.refl _) _).mono (fun _ _ h => h) fun _ _ => hdropped.failsClean).bind
      fun index w₂ h₂ => ?_
    refine ((popContainer_takes h₂ _).mono (fun _ _ h => h) fun _ _ => hdropped.failsClean).bind
      fun ref w₃ h₃ => ?_
    rw [run_bind]
    show Outcome _ _ ((if index < w₃.heap.length ref.cell then modify _ else throw _ : Operation Unit) w₃)
    by_cases hindex : index < w₃.heap.length ref.cell
    · rw [if_pos hindex]
      trivial
    · rw [if_neg hindex]
      exact hdropped.failsClean ⟨fun _ => nofun, h₃.1⟩

/-- **Every operation that fails has taken operands at most.** -/
theorem Plain.run_fails (verifier : Verifier) (op : Plain) : Clean (op.run verifier) := by
  cases op with
  | container op =>
    cases op with
    | arraySize => exact arraySize_moves.clean
    | pack => exact pack_clean
    | unpack => exact unpack_clean
    | pickItem => exact pickItem_clean
    | setItem => exact setItem_clean
    | newArray => exact newContainer_clean _ .array
    | newStruct => exact newContainer_clean _ .struct
  | _ =>
    refine Moves.clean (Plain.run_moves verifier fun _ h => ?_)
    cases h

end StackScript
