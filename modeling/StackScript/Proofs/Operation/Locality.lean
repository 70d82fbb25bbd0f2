import StackScript.Proofs.Operation.Moves

/-!
# Operations do not see what lies below

An operation that succeeds has found all its operands on the stacks. If more items lie below them,
it finds the same operands, succeeds in the same way and leaves the items below alone. Depths and
counts that are taken off the stack, and counts that are compared with the length of the stack, make
no difference to this. The one exception is `DEPTH`, which pushes that length.

The notion is general: `Unmoved g m` says that a success of the computation `m` is the same from a
state changed by `g`. It is put together along the statements of a `do` block (`Unmoved.bind`).

Main statement: `Plain.run_local`, for every operation but `DEPTH`.
-/

namespace StackScript

/-! ### Computations that a change of state does not move -/

section Unmoved

variable {ε σ α β : Type}

/-- If the computation succeeds, then so it does from the state changed by `g`, with the same value,
and the state it leaves is changed by `g` as well. -/
def Unmoved (g : σ → σ) (m : EStateM ε σ α) : Prop :=
  ∀ ⦃s : σ⦄ ⦃a : α⦄ ⦃s' : σ⦄, m s = .ok a s' → m (g s) = .ok a (g s')

variable {g : σ → σ}

theorem unmoved_pure (a : α) : Unmoved g (pure a : EStateM ε σ α) := by
  intro s b s' h
  cases h
  rfl

/-- A failure is no success. -/
theorem unmoved_throw (e : ε) : Unmoved g (throw e : EStateM ε σ α) := by
  intro s a s' h
  cases h

theorem unmoved_modify {f : σ → σ} (hf : ∀ s, f (g s) = g (f s)) :
    Unmoved g (modify f : EStateM ε σ PUnit) := by
  intro s a s' h
  rw [run_modify] at h ⊢
  cases h
  rw [hf]

theorem Unmoved.bind {m : EStateM ε σ α} {f : α → EStateM ε σ β} (hm : Unmoved g m)
    (hf : ∀ a, Unmoved g (f a)) : Unmoved g (m >>= f) := by
  intro s b s' h
  rw [run_bind] at h ⊢
  cases hrun : m s with
  | error e s₁ =>
    rw [hrun] at h
    cases h
  | ok a s₁ =>
    rw [hrun] at h
    rw [hm hrun]
    exact hf a h

/-- What is read of the state is not changed by `g`. -/
theorem unmoved_get_bind {f : σ → EStateM ε σ β} (hread : ∀ s, f (g s) = f s)
    (hf : ∀ s, Unmoved g (f s)) : Unmoved g (get >>= f) := by
  intro s b s' h
  rw [run_bind, run_get] at h ⊢
  simp only [hread]
  exact hf s h

theorem unmoved_ite {p : Prop} [Decidable p] {m m' : EStateM ε σ α} (hm : Unmoved g m)
    (hm' : Unmoved g m') : Unmoved g (if p then m else m') := by
  split
  · exact hm
  · exact hm'

end Unmoved

namespace Workspace

/-- The workspace with more items below those on the stacks. -/
def atop (w : Workspace) (below belowAlt : Stack Item) : Workspace :=
  { w with eval := w.eval ++ below, alt := w.alt ++ belowAlt }

end Workspace

namespace Operation

variable {α : Type}

/-- A success of the operation is the same whatever lies below on the stacks. -/
def Local (op : Operation α) : Prop :=
  ∀ below belowAlt : Stack Item, Unmoved (fun w => w.atop below belowAlt) op

/-! ### Composition -/

theorem local_pure (a : α) : Local (pure a) := fun _ _ => unmoved_pure a

theorem local_throw (fault : Fault) : Local (throw fault : Operation α) := fun _ _ =>
  unmoved_throw fault

theorem Local.bind {β : Type} {m : Operation α} {f : α → Operation β} (hm : Local m)
    (hf : ∀ a, Local (f a)) : Local (m >>= f) := fun below belowAlt =>
  (hm below belowAlt).bind fun a => hf a below belowAlt

theorem local_ite {p : Prop} [Decidable p] {m m' : Operation α} (hm : Local m) (hm' : Local m') :
    Local (if p then m else m') := fun below belowAlt =>
  unmoved_ite (hm below belowAlt) (hm' below belowAlt)

/-- A check with a fault of its own, before anything else is done. -/
theorem local_guard {p : Prop} [Decidable p] (fault : Fault) {m : Operation α} (hm : Local m) :
    Local (if p then (throw fault : Operation Unit) >>= fun _ => m else m) :=
  local_ite ((local_throw fault).bind fun _ => hm) hm

/-- Only the heap is read, which is the same. -/
theorem local_readHeap (f : Heap → α) : Local (do return f (← get).heap) := fun _ _ =>
  unmoved_get_bind (fun _ => rfl) fun _ => unmoved_pure _

/-! ### The evaluation stack -/

theorem local_push (item : Item) : Local (push item) := fun _ _ => unmoved_modify fun _ => rfl

/-- An item that is found at a depth is found there with more items below. -/
theorem local_remove (depth : Nat) : Local (remove depth) := by
  intro below belowAlt w item w' h
  rw [remove_eq] at h ⊢
  cases hitem : w.eval[depth]? with
  | none => simp [hitem] at h
  | some found =>
    obtain ⟨hdepth, -⟩ := List.getElem?_eq_some_iff.mp hitem
    simp only [hitem, EStateM.Result.ok.injEq] at h
    obtain ⟨rfl, rfl⟩ := h
    simp [Workspace.atop, List.getElem?_append_left hdepth, hitem,
      List.eraseIdx_append_of_lt_length hdepth]

theorem local_pop : Local pop := local_remove 0

theorem local_peek (depth : Nat) : Local (peek depth) := by
  intro below belowAlt w item w' h
  rw [peek_eq] at h ⊢
  cases hitem : w.eval[depth]? with
  | none => simp [hitem] at h
  | some found =>
    obtain ⟨hdepth, -⟩ := List.getElem?_eq_some_iff.mp hitem
    simp only [hitem, EStateM.Result.ok.injEq] at h
    obtain ⟨rfl, rfl⟩ := h
    simp [Workspace.atop, List.getElem?_append_left hdepth, hitem]

/-- The depth just below the last item is within the stack as well. -/
theorem insertIdx_append {l : Stack Item} {depth : Nat} (h : depth ≤ l.length) (item : Item)
    (below : Stack Item) : (l ++ below).insertIdx depth item = l.insertIdx depth item ++ below := by
  induction l generalizing depth with
  | nil =>
    obtain rfl : depth = 0 := Nat.le_zero.mp h
    simp
  | cons top rest ih =>
    cases depth with
    | zero => simp
    | succ depth => simpa using ih (Nat.le_of_succ_le_succ h)

theorem local_insert (depth : Nat) (item : Item) : Local (insert depth item) := by
  intro below belowAlt w a w' h
  rw [insert_eq] at h ⊢
  by_cases hdepth : w.eval.length < depth
  · simp [hdepth] at h
  · rw [if_neg hdepth] at h
    cases h
    have hwithin : ¬(w.atop below belowAlt).eval.length < depth := by
      simp only [Workspace.atop, List.length_append]
      omega
    rw [if_neg hwithin]
    simp [Workspace.atop, insertIdx_append (Nat.not_lt.mp hdepth)]

theorem local_replace (depth : Nat) (item : Item) : Local (replace depth item) := by
  intro below belowAlt w a w' h
  rw [replace_eq] at h ⊢
  by_cases hdepth : w.eval.length < depth + 1
  · simp [hdepth] at h
  · rw [if_neg hdepth] at h
    cases h
    have hwithin : ¬(w.atop below belowAlt).eval.length < depth + 1 := by
      simp only [Workspace.atop, List.length_append]
      omega
    rw [if_neg hwithin]
    simp [Workspace.atop, List.set_append_left depth item (by omega : depth < w.eval.length)]

/-! ### Operands -/

theorem local_popInteger (instruction : String) : Local (popInteger instruction) := by
  refine local_pop.bind fun item => ?_
  cases item.integer? with
  | some value => exact local_pure value
  | none => exact local_throw _

theorem local_popBytes (instruction : String) : Local (popBytes instruction) := by
  refine local_pop.bind fun item => ?_
  cases item.bytes? with
  | some data => exact local_pure data
  | none => exact local_throw _

theorem local_popBool : Local popBool := local_pop.bind fun item => local_pure item.truth

theorem local_popInt32 (instruction : String) : Local (popInt32 instruction) :=
  (local_popInteger instruction).bind fun _ => local_ite (local_pure _) (local_throw _)

theorem local_popCount (instruction : String) : Local (popCount instruction) :=
  (local_popInt32 instruction).bind fun _ => local_guard _ (local_pure _)

theorem local_popMany (instruction : String) (count : Nat) : Local (popMany instruction count) := by
  suffices ∀ done, Local (popManyOnto instruction done count) from this []
  induction count with
  | zero => exact fun done => local_pure done.reverse
  | succ count ih =>
    intro done
    exact (local_popBytes instruction).bind fun data => ih (data :: done)

theorem local_popContainer (instruction : String) : Local (popContainer instruction) := by
  refine local_pop.bind fun item => ?_
  cases item.ref? with
  | some ref => exact local_pure ref
  | none => exact local_throw _

/-! ### Numbers -/

theorem local_unary (instruction : String) (f : Int → Item) : Local (unary instruction f) :=
  (local_popInteger instruction).bind fun x => local_push (f x)

theorem local_binary (instruction : String) (f : Int → Int → Item) :
    Local (binary instruction f) :=
  (local_popInteger instruction).bind fun b =>
    (local_popInteger instruction).bind fun a => local_push (f a b)

theorem local_division (instruction : String) (f : Int → Int → Int) :
    Local (division instruction f) :=
  (local_popInteger instruction).bind fun _ =>
    (local_popInteger instruction).bind fun _ => local_guard _ (local_push _)

theorem local_shift (op : NumberOp) : Local (shift op) :=
  (local_popInt32 op.mnemonic).bind fun _ =>
    (local_popInteger op.mnemonic).bind fun _ => local_push _

theorem local_logical (f : Bool → Bool → Bool) : Local (logical f) :=
  local_popBool.bind fun _ => local_popBool.bind fun _ => local_push _

end Operation

open Operation

theorem NumberOp.run_local (op : NumberOp) : Local op.run := by
  cases op with
  | equal =>
    apply local_pop.bind
    intro b
    apply local_pop.bind
    intro a
    exact local_push _
  | not =>
    apply local_popBool.bind
    intro x
    exact local_push _
  | within =>
    apply (local_popInteger _).bind
    intro b
    apply (local_popInteger _).bind
    intro a
    apply (local_popInteger _).bind
    intro x
    exact local_push _
  | div | mod => exact local_division _ _
  | shl | shr => exact local_shift _
  | boolAnd | boolOr => exact local_logical _
  | invert | inc | dec | sign | negate | abs | nz => exact local_unary _ _
  | _ => exact local_binary _ _

/-! ### Byte strings, digests and signatures -/

theorem SpliceOp.run_local (op : SpliceOp) : Local op.run := by
  cases op with
  | cat =>
    apply (local_popBytes _).bind
    intro b
    apply (local_popBytes _).bind
    intro a
    exact local_push _
  | substr =>
    apply (local_popCount _).bind
    intro count
    apply (local_popCount _).bind
    intro start
    apply (local_popBytes _).bind
    intro data
    exact local_push _
  | left =>
    apply (local_popCount _).bind
    intro count
    apply (local_popBytes _).bind
    intro data
    exact local_push _
  | right =>
    apply (local_popCount _).bind
    intro count
    apply (local_popBytes _).bind
    intro data
    exact local_guard _ (local_push _)
  | size =>
    apply local_pop.bind
    intro item
    cases item.size? with
    | some count => exact local_push _
    | none => exact local_throw _

theorem Verifier.local_requireMessage (verifier : Verifier) : Local verifier.requireMessage := by
  unfold Verifier.requireMessage
  cases verifier.message with
  | some message => exact local_pure message
  | none => exact local_throw _

theorem CryptoOp.run_local (verifier : Verifier) (op : CryptoOp) : Local (op.run verifier) := by
  cases op with
  | checkSig =>
    apply (local_popBytes _).bind
    intro key
    apply (local_popBytes _).bind
    intro signature
    apply verifier.local_requireMessage.bind
    intro message
    exact local_push _
  | checkMultiSig =>
    apply (local_popInt32 _).bind
    intro n
    apply local_guard
    apply (local_popMany _ _).bind
    intro keys
    apply (local_popInt32 _).bind
    intro m
    apply local_guard
    apply (local_popMany _ _).bind
    intro signatures
    apply verifier.local_requireMessage.bind
    intro message
    exact local_push _
  | _ => exact (local_popBytes _).bind fun _ => local_push _

/-! ### Stacks -/

theorem dupFromAlt_eq (w : Workspace) : StackOp.dupFromAlt.run w =
    match w.alt with
    | item :: _ => .ok () { w with eval := item :: w.eval }
    | [] => .error (.depth ⟨0, 0⟩) w := by
  obtain ⟨eval, alt, heap⟩ := w
  cases alt <;> rfl

theorem fromAlt_eq (w : Workspace) : StackOp.fromAlt.run w =
    match w.alt with
    | item :: rest => .ok () { w with eval := item :: w.eval, alt := rest }
    | [] => .error (.depth ⟨0, 0⟩) w := by
  obtain ⟨eval, alt, heap⟩ := w
  cases alt <;> rfl

theorem local_dupFromAlt : Local StackOp.dupFromAlt.run := by
  rintro below belowAlt ⟨eval, alt, heap⟩ a w' h
  rw [dupFromAlt_eq] at h ⊢
  cases alt with
  | nil => cases h
  | cons item rest =>
    cases h
    rfl

theorem local_fromAlt : Local StackOp.fromAlt.run := by
  rintro below belowAlt ⟨eval, alt, heap⟩ a w' h
  rw [fromAlt_eq] at h ⊢
  cases alt with
  | nil => cases h
  | cons item rest =>
    cases h
    rfl

theorem StackOp.run_local {op : StackOp} (hdepth : op ≠ .depth) : Local op.run := by
  cases op with
  | depth => exact absurd rfl hdepth
  | dupFromAlt => exact local_dupFromAlt
  | fromAlt => exact local_fromAlt
  | toAlt =>
    apply local_pop.bind
    intro item below belowAlt
    exact unmoved_modify fun _ => rfl
  | xdrop =>
    apply (local_popCount _).bind
    intro n
    exact (local_remove n).bind fun _ => local_pure _
  | xswap =>
    apply (local_popCount _).bind
    intro n
    apply local_ite (local_pure _)
    apply (local_peek n).bind
    intro deep
    apply (local_peek 0).bind
    intro top
    apply (local_replace 0 deep).bind
    intro _
    exact local_replace n top
  | xtuck =>
    apply (local_popInt32 _).bind
    intro n
    -- The length of the stack is only read for the fault.
    apply local_ite
    · intro below belowAlt w a w' h
      cases h
    apply (local_peek 0).bind
    intro top
    exact local_insert _ top
  | drop => exact local_pop.bind fun _ => local_pure _
  | dup => exact (local_peek 0).bind local_push
  | nip => exact (local_remove 1).bind fun _ => local_pure _
  | «over» => exact (local_peek 1).bind local_push
  | pick =>
    apply (local_popCount _).bind
    intro n
    exact (local_peek n).bind local_push
  | roll =>
    apply (local_popCount _).bind
    intro n
    apply local_ite (local_pure _)
    exact (local_remove n).bind local_push
  | rot => exact (local_remove 2).bind local_push
  | swap => exact (local_remove 1).bind local_push
  | tuck => exact (local_peek 0).bind (local_insert 2)

theorem Constant.run_local (c : Constant) : Local c.run := by
  cases c with
  | empty | minusOne | small n => exact local_push _

/-! ### Containers -/

theorem local_elements (ref : CellRef) : Local (elements ref) := local_readHeap fun heap =>
  heap.elements ref.cell

theorem local_length (ref : CellRef) : Local (length ref) := local_readHeap fun heap =>
  heap.length ref.cell

theorem local_element? (ref : CellRef) (index : Nat) : Local (element? ref index) :=
  local_readHeap fun heap => heap.element? ref.cell index

theorem local_hasRoom (count : Nat) : Local (hasRoom count) := local_readHeap fun heap =>
  heap.room count

theorem local_popSize (instruction : String) : Local (popSize instruction) := by
  apply (local_popCount _).bind
  intro count
  apply (local_hasRoom count).bind
  intro room
  exact local_ite (local_pure count) ((local_throw _).bind fun _ => local_pure count)

theorem local_pushContainer (kind : ContainerKind) (elements : Array Item) :
    Local (pushContainer kind elements) := fun _ _ => unmoved_modify fun _ => rfl

/-- The items are taken off the top, if there are as many. -/
theorem popCopies_atop {w : Workspace} {count : Nat} (h : count ≤ w.eval.length)
    (below belowAlt : Stack Item) : popCopies count (w.atop below belowAlt) =
      match popCopies count w with
      | .ok items w' => .ok items (w'.atop below belowAlt)
      | .error fault w' => .error fault (w'.atop below belowAlt) := by
  change EStateM.Result.ok _ _ = EStateM.Result.ok _ _
  simp [Workspace.atop, List.take_append_of_le_length h, List.drop_append_of_le_length h]

theorem local_pack : Local ContainerOp.pack.run := by
  apply (local_popInt32 _).bind
  intro count below belowAlt w a w' h
  rw [run_bind, run_get] at h ⊢
  by_cases hrange : count < 0 ∨ Stack.hasFewer w.eval count.toNat
  · simp only [hrange, if_true] at h
    cases h
  · have hrange' : ¬(count < 0 ∨ Stack.hasFewer (w.atop below belowAlt).eval count.toNat) := by
      simp only [Stack.hasFewer_eq, decide_eq_true_eq, Workspace.atop, List.length_append] at hrange ⊢
      omega
    have hcount : count.toNat ≤ w.eval.length := by
      simp only [Stack.hasFewer_eq, decide_eq_true_eq] at hrange
      omega
    simp only [hrange, hrange', if_false] at h ⊢
    rw [run_bind] at h ⊢
    rw [popCopies_atop hcount]
    cases hcopies : popCopies count.toNat w with
    | error fault w₁ =>
      rw [hcopies] at h
      cases h
    | ok items w₁ =>
      rw [hcopies] at h
      exact local_pushContainer .array items.toArray below belowAlt h

theorem local_popCopy : Local popCopy := by
  apply local_pop.bind
  intro item below belowAlt w copied w' h
  cases h
  rfl

theorem ContainerOp.run_local (op : ContainerOp) : Local op.run := by
  cases op with
  | arraySize =>
    apply local_pop.bind
    intro item
    cases item with
    | container ref => exact (local_length ref).bind fun _ => local_push _
    | host object => exact local_throw _
    | _ => exact local_push _
  | pack => exact local_pack
  | unpack =>
    apply (local_popContainer _).bind
    intro ref
    apply (local_elements ref).bind
    intro elements below belowAlt
    apply Unmoved.bind
    · apply unmoved_modify
      intro w
      simp [Workspace.atop]
    · intro _
      exact local_push _ below belowAlt
  | pickItem =>
    apply (local_popCount _).bind
    intro index
    apply (local_popContainer _).bind
    intro ref
    apply (local_element? ref index).bind
    intro element
    cases element with
    | some element => exact local_push element
    | none => exact (local_length ref).bind fun _ => local_throw _
  | setItem =>
    apply local_popCopy.bind
    intro value
    apply (local_popCount _).bind
    intro index
    apply (local_popContainer _).bind
    intro ref
    apply (local_length ref).bind
    intro length
    apply local_ite _ (local_throw _)
    intro below belowAlt
    exact unmoved_modify fun _ => rfl
  | newArray | newStruct => exact (local_popSize _).bind fun _ => local_pushContainer _ _

/-- **An operation does not see what lies below its operands**, unless it asks how many items there
are. -/
theorem Plain.run_local (verifier : Verifier) {op : Plain} (h : op ≠ .stack .depth) :
    Local (op.run verifier) := by
  cases op with
  | constant c => exact c.run_local
  | nop => exact local_pure ()
  | stack op => exact StackOp.run_local fun hdepth => h (congrArg Plain.stack hdepth)
  | splice op => exact op.run_local
  | number op => exact op.run_local
  | crypto op => exact op.run_local verifier
  | container op => exact op.run_local

end StackScript
