import StackScript.Operation
import StackScript.Proofs.Outcome
import Mathlib.Data.List.Infix
import Mathlib.Data.List.InsertIdx

/-!
# What operations do to the stacks

An operation first takes operands off the evaluation stack, and can only fail while it does so. What
is known meanwhile is `Took`: the evaluation stack has lost items at the top, and nothing else has
changed. An operation that does not work on containers ends with `Shuffles`: the heap is the one
before, and every item on the stacks was there before or holds no reference.

Main statement: every such operation moves items in this way and, if it fails, has only taken
operands (`Plain.run_moves`). No operation raises a fault of decoding.
-/

namespace StackScript

namespace Workspace

/-- An item is on one of the stacks. -/
def OnStack (w : Workspace) (item : Item) : Prop := item ∈ w.eval ∨ item ∈ w.alt

/-- Operands have been taken off the evaluation stack, and nothing else has happened. -/
structure Took (w w' : Workspace) : Prop where
  eval : w'.eval <:+ w.eval
  alt : w'.alt = w.alt
  heap : w'.heap = w.heap

/-- Items have been moved, dropped or added, and none that was added holds a reference. -/
structure Shuffles (w w' : Workspace) : Prop where
  items : ∀ item, w'.OnStack item → w.OnStack item ∨ item.ref? = none
  heap : w'.heap = w.heap

theorem Took.refl (w : Workspace) : w.Took w := ⟨List.suffix_rfl, rfl, rfl⟩

theorem Took.trans {w w' w'' : Workspace} (h : w.Took w') (h' : w'.Took w'') : w.Took w'' :=
  ⟨h'.eval.trans h.eval, h'.alt.trans h.alt, h'.heap.trans h.heap⟩

theorem Took.mem {w w' : Workspace} (h : w.Took w') {item : Item} (hitem : item ∈ w'.eval) :
    item ∈ w.eval := h.eval.subset hitem

theorem Took.onStack {w w' : Workspace} (h : w.Took w') {item : Item} (hitem : w'.OnStack item) :
    w.OnStack item := by
  rcases hitem with hitem | hitem
  · exact .inl (h.mem hitem)
  · exact .inr (h.alt ▸ hitem)

theorem Took.shuffles {w w' : Workspace} (h : w.Took w') : w.Shuffles w' :=
  ⟨fun _ hitem => .inl (h.onStack hitem), h.heap⟩

/-- What has been shuffled may get another evaluation stack of items that were there or hold no
reference. -/
theorem Took.shuffles_eval {w w' : Workspace} (h : w.Took w') {items : Stack Item}
    (hitems : ∀ item ∈ items, w'.OnStack item ∨ item.ref? = none) :
    w.Shuffles { w' with eval := items } := by
  refine ⟨fun item hitem => ?_, h.heap⟩
  rcases hitem with hitem | hitem
  · exact (hitems item hitem).imp_left h.onStack
  · exact .inl (h.onStack (.inr hitem))

/-- What is known after a failure: the fault is none of decoding, and operands are gone. -/
def Fails (w : Workspace) (fault : Fault) (w' : Workspace) : Prop :=
  (∀ cause, fault ≠ .decode cause) ∧ w.Took w'

end Workspace

open Workspace

namespace Operation

/-! ### Moves from a workspace -/

section Running

variable (w : Workspace)

theorem remove_eq (depth : Nat) : remove depth w =
    match w.eval[depth]? with
    | some item => .ok item { w with eval := w.eval.eraseIdx depth }
    | none => .error (.depth ⟨depth, w.eval.length⟩) w := by
  simp only [remove, run_bind, run_get, Stack.remove]
  cases w.eval[depth]? <;> rfl

theorem pop_eq : pop w =
    match w.eval with
    | item :: rest => .ok item { w with eval := rest }
    | [] => .error (.depth ⟨0, 0⟩) w := by
  rw [pop, remove_eq]
  cases h : w.eval <;> rfl

variable {w} in
theorem popInteger_eq (instruction : String) {item : Item} {rest : Stack Item} {value : Int}
    (heval : w.eval = item :: rest) (hvalue : item.integer? = some value) :
    popInteger instruction w = .ok value { w with eval := rest } := by
  simp only [popInteger, run_bind, pop_eq, heval, hvalue]
  rfl

variable {w} in
theorem popInt32_eq (instruction : String) {item : Item} {rest : Stack Item} {value : Int}
    (heval : w.eval = item :: rest) (hvalue : item.integer? = some value)
    (hfits : Number.TwosComplement.fits32 value = true) :
    popInt32 instruction w = .ok value { w with eval := rest } := by
  simp only [popInt32, run_bind, popInteger_eq instruction heval hvalue, hfits, if_true]
  rfl

variable {w} in
theorem popBytes_eq (instruction : String) {item : Item} {rest : Stack Item} {data : Bytes}
    (heval : w.eval = item :: rest) (hdata : item.bytes? = some data) :
    popBytes instruction w = .ok data { w with eval := rest } := by
  simp only [popBytes, run_bind, pop_eq, heval, hdata]
  rfl

theorem peek_eq (depth : Nat) : peek depth w =
    match w.eval[depth]? with
    | some item => .ok item w
    | none => .error (.depth ⟨depth, w.eval.length⟩) w := by
  simp only [peek, run_bind, run_get, Stack.peek]
  cases w.eval[depth]? <;> rfl

theorem insert_eq (depth : Nat) (item : Item) : insert depth item w =
    if w.eval.length < depth then .error (.depth ⟨depth, w.eval.length⟩) w
    else .ok () { w with eval := w.eval.insertIdx depth item } := by
  simp only [insert, run_bind, run_get, Stack.insert, Stack.hasFewer_eq, decide_eq_true_eq]
  by_cases h : w.eval.length < depth
  · rw [if_pos h, if_pos h]
    rfl
  · rw [if_neg h, if_neg h]
    rfl

theorem replace_eq (depth : Nat) (item : Item) : replace depth item w =
    if w.eval.length < depth + 1 then .error (.depth ⟨depth, w.eval.length⟩) w
    else .ok () { w with eval := w.eval.set depth item } := by
  simp only [replace, run_bind, run_get, Stack.replace, Stack.hasFewer_eq, decide_eq_true_eq]
  by_cases h : w.eval.length < depth + 1
  · rw [if_pos h, if_pos h]
    rfl
  · rw [if_neg h, if_neg h]
    rfl

end Running

/-- An operation that moves items and, if it fails, has only taken operands. -/
def Moves (op : Operation Unit) : Prop := ∀ w, Outcome (fun _ => w.Shuffles) w.Fails (op w)

section Operands

/-! ### Taking operands

The workspace before the operation is `w₀`; `w` is what is left after some operands were taken. -/

variable {w₀ w : Workspace}

theorem pop_takes (h : w₀.Took w) :
    Outcome (fun item w' => w₀.Took w' ∧ item ∈ w₀.eval) w₀.Fails (pop w) := by
  rw [pop_eq]
  cases heval : w.eval with
  | nil => exact ⟨fun _ => nofun, h⟩
  | cons item rest =>
    refine ⟨h.trans ⟨?_, rfl, rfl⟩, h.mem (heval ▸ List.mem_cons_self)⟩
    rw [heval]
    exact List.suffix_cons ..

theorem peek_takes (h : w₀.Took w) (depth : Nat) :
    Outcome (fun item w' => w' = w ∧ item ∈ w.eval) w₀.Fails (peek depth w) := by
  rw [peek_eq]
  cases hitem : w.eval[depth]? with
  | none => exact ⟨fun _ => nofun, h⟩
  | some item => exact ⟨rfl, List.mem_of_getElem? hitem⟩

theorem popInteger_takes (h : w₀.Took w) (instruction : String) :
    Outcome (fun _ => w₀.Took) w₀.Fails (popInteger instruction w) := by
  refine (pop_takes h).bind fun item w' h' => ?_
  cases item.integer? with
  | some value => exact h'.1
  | none => exact ⟨fun _ => nofun, h'.1⟩

theorem popBytes_takes (h : w₀.Took w) (instruction : String) :
    Outcome (fun _ => w₀.Took) w₀.Fails (popBytes instruction w) := by
  refine (pop_takes h).bind fun item w' h' => ?_
  cases item.bytes? with
  | some data => exact h'.1
  | none => exact ⟨fun _ => nofun, h'.1⟩

theorem popBool_takes (h : w₀.Took w) : Outcome (fun _ => w₀.Took) w₀.Fails (popBool w) :=
  (pop_takes h).bind fun _ _ h' => h'.1

theorem popInt32_takes (h : w₀.Took w) (instruction : String) :
    Outcome (fun _ => w₀.Took) w₀.Fails (popInt32 instruction w) := by
  refine (popInteger_takes h instruction).bind fun value w' h' => ?_
  cases Number.TwosComplement.fits32 value with
  | true => exact h'
  | false => exact ⟨fun _ => nofun, h'⟩

theorem popCount_takes (h : w₀.Took w) (instruction : String) :
    Outcome (fun _ => w₀.Took) w₀.Fails (popCount instruction w) := by
  refine (popInt32_takes h instruction).bind fun value w' h' => ?_
  by_cases hneg : value < 0
  · simp only [hneg, if_true]
    exact ⟨fun _ => nofun, h'⟩
  · simp only [hneg, if_false]
    exact h'

theorem popMany_takes (h : w₀.Took w) (instruction : String) (count : Nat) :
    Outcome (fun _ => w₀.Took) w₀.Fails (popMany instruction count w) := by
  suffices ∀ done w, w₀.Took w →
      Outcome (fun _ => w₀.Took) w₀.Fails (popManyOnto instruction done count w) from this [] w h
  induction count with
  | zero => exact fun _ _ h => h
  | succ count ih =>
    intro done w h
    exact (popBytes_takes h instruction).bind fun data w' h' => ih (data :: done) w' h'

/-- Taking an item out at a depth, and using it, is the last thing an operation does. -/
theorem remove_moves (h : w₀.Took w) (depth : Nat) {f : Item → Operation Unit}
    (hf : ∀ item w', item ∈ w₀.eval → w₀.Shuffles w' →
      Outcome (fun _ => w₀.Shuffles) w₀.Fails (f item w')) :
    Outcome (fun _ => w₀.Shuffles) w₀.Fails ((remove depth >>= f) w) := by
  rw [run_bind, remove_eq]
  cases hitem : w.eval[depth]? with
  | none => exact ⟨fun _ => nofun, h⟩
  | some item =>
    refine hf item _ (h.mem (List.mem_of_getElem? hitem)) (h.shuffles_eval fun x hx => ?_)
    exact .inl (.inl (List.mem_of_mem_eraseIdx hx))

theorem insert_moves (h : w₀.Took w) (depth : Nat) {item : Item} (hitem : item ∈ w.eval) :
    Outcome (fun _ => w₀.Shuffles) w₀.Fails (insert depth item w) := by
  rw [insert_eq]
  split
  · exact ⟨fun _ => nofun, h⟩
  · refine h.shuffles_eval fun x hx => .inl (.inl ?_)
    rcases List.eq_or_mem_of_mem_insertIdx hx with rfl | hx
    · exact hitem
    · exact hx

end Operands

theorem push_moves {w₀ w : Workspace} (h : w₀.Shuffles w) {item : Item}
    (hitem : w₀.OnStack item ∨ item.ref? = none) :
    Outcome (fun _ => w₀.Shuffles) w₀.Fails (push item w) := by
  refine ⟨fun x hx => ?_, h.heap⟩
  rcases hx with hx | hx
  · rcases List.mem_cons.mp hx with rfl | hx
    · exact hitem
    · exact h.items x (.inl hx)
  · exact h.items x (.inr hx)

/-! ### Numbers -/

theorem unary_moves (instruction : String) {f : Int → Item} (hf : ∀ x, (f x).ref? = none) :
    Moves (unary instruction f) := by
  intro w
  refine (popInteger_takes (.refl w) instruction).bind fun x w₁ h₁ => ?_
  exact push_moves h₁.shuffles (.inr (hf x))

theorem binary_moves (instruction : String) {f : Int → Int → Item} (hf : ∀ a b, (f a b).ref? = none) :
    Moves (binary instruction f) := by
  intro w
  refine (popInteger_takes (.refl w) instruction).bind fun b w₁ h₁ => ?_
  refine (popInteger_takes h₁ instruction).bind fun a w₂ h₂ => ?_
  exact push_moves h₂.shuffles (.inr (hf a b))

theorem division_moves (instruction : String) (f : Int → Int → Int) :
    Moves (division instruction f) := by
  intro w
  refine (popInteger_takes (.refl w) instruction).bind fun b w₁ h₁ => ?_
  refine (popInteger_takes h₁ instruction).bind fun a w₂ h₂ => ?_
  by_cases hb : b = 0
  · simp only [hb, if_true]
    exact ⟨fun _ => nofun, h₂⟩
  · simp only [hb, if_false]
    exact push_moves h₂.shuffles (.inr rfl)

theorem shift_moves (op : NumberOp) : Moves (shift op) := by
  intro w
  refine (popInt32_takes (.refl w) op.mnemonic).bind fun n w₁ h₁ => ?_
  refine (popInteger_takes h₁ op.mnemonic).bind fun x w₂ h₂ => ?_
  exact push_moves h₂.shuffles (.inr rfl)

theorem logical_moves (f : Bool → Bool → Bool) : Moves (logical f) := by
  intro w
  refine (popBool_takes (.refl w)).bind fun b w₁ h₁ => ?_
  refine (popBool_takes h₁).bind fun a w₂ h₂ => ?_
  exact push_moves h₂.shuffles (.inr rfl)

end Operation

open Operation

theorem NumberOp.run_moves (op : NumberOp) : Moves op.run := by
  cases op with
  | equal =>
    intro w
    refine (pop_takes (.refl w)).bind fun b w₁ h₁ => ?_
    refine (pop_takes h₁.1).bind fun a w₂ h₂ => ?_
    exact push_moves h₂.1.shuffles (.inr rfl)
  | not =>
    intro w
    refine (popBool_takes (.refl w)).bind fun x w₁ h₁ => ?_
    exact push_moves h₁.shuffles (.inr rfl)
  | within =>
    intro w
    refine (popInteger_takes (.refl w) _).bind fun b w₁ h₁ => ?_
    refine (popInteger_takes h₁ _).bind fun a w₂ h₂ => ?_
    refine (popInteger_takes h₂ _).bind fun x w₃ h₃ => ?_
    exact push_moves h₃.shuffles (.inr rfl)
  | div | mod => exact division_moves _ _
  | shl | shr => exact shift_moves _
  | boolAnd | boolOr => exact logical_moves _
  | invert | inc | dec | sign | negate | abs | nz => exact unary_moves _ fun _ => rfl
  | _ => exact binary_moves _ fun _ _ => rfl

/-! ### Byte strings, digests and signatures -/

theorem SpliceOp.run_moves (op : SpliceOp) : Moves op.run := by
  intro w
  cases op with
  | cat =>
    refine (popBytes_takes (.refl w) _).bind fun b w₁ h₁ => ?_
    refine (popBytes_takes h₁ _).bind fun a w₂ h₂ => ?_
    exact push_moves h₂.shuffles (.inr rfl)
  | substr =>
    refine (popCount_takes (.refl w) _).bind fun count w₁ h₁ => ?_
    refine (popCount_takes h₁ _).bind fun start w₂ h₂ => ?_
    refine (popBytes_takes h₂ _).bind fun data w₃ h₃ => ?_
    exact push_moves h₃.shuffles (.inr rfl)
  | left =>
    refine (popCount_takes (.refl w) _).bind fun count w₁ h₁ => ?_
    refine (popBytes_takes h₁ _).bind fun data w₂ h₂ => ?_
    exact push_moves h₂.shuffles (.inr rfl)
  | right =>
    refine (popCount_takes (.refl w) _).bind fun count w₁ h₁ => ?_
    refine (popBytes_takes h₁ _).bind fun data w₂ h₂ => ?_
    by_cases hshort : data.length < count
    · simp only [hshort, if_true]
      exact ⟨fun _ => nofun, h₂⟩
    · simp only [hshort, if_false]
      exact push_moves h₂.shuffles (.inr rfl)
  | size =>
    refine (pop_takes (.refl w)).bind fun item w₁ h₁ => ?_
    cases item.size? with
    | some count => exact push_moves h₁.1.shuffles (.inr rfl)
    | none => exact ⟨fun _ => nofun, h₁.1⟩

theorem Verifier.requireMessage_takes (verifier : Verifier) {w₀ w : Workspace} (h : w₀.Took w) :
    Outcome (fun _ => w₀.Took) w₀.Fails (verifier.requireMessage w) := by
  unfold Verifier.requireMessage
  cases verifier.message with
  | some message => exact h
  | none => exact ⟨fun _ => nofun, h⟩

theorem CryptoOp.run_moves (verifier : Verifier) (op : CryptoOp) : Moves (op.run verifier) := by
  intro w
  cases op with
  | checkSig =>
    refine (popBytes_takes (.refl w) _).bind fun key w₁ h₁ => ?_
    refine (popBytes_takes h₁ _).bind fun signature w₂ h₂ => ?_
    refine (verifier.requireMessage_takes h₂).bind fun message w₃ h₃ => ?_
    exact push_moves h₃.shuffles (.inr rfl)
  | checkMultiSig =>
    refine (popInt32_takes (.refl w) _).bind fun n w₁ h₁ => ?_
    by_cases hn : n < 1
    · simp only [hn, if_true]
      exact ⟨fun _ => nofun, h₁⟩
    simp only [hn, if_false]
    refine (popMany_takes h₁ _ _).bind fun keys w₂ h₂ => ?_
    refine (popInt32_takes h₂ _).bind fun m w₃ h₃ => ?_
    by_cases hm : m < 1 ∨ m > n
    · simp only [hm, if_true]
      exact ⟨fun _ => nofun, h₃⟩
    simp only [hm, if_false]
    refine (popMany_takes h₃ _ _).bind fun signatures w₄ h₄ => ?_
    refine (verifier.requireMessage_takes h₄).bind fun message w₅ h₅ => ?_
    exact push_moves h₅.shuffles (.inr rfl)
  | _ =>
    refine (popBytes_takes (.refl w) _).bind fun data w₁ h₁ => ?_
    exact push_moves h₁.shuffles (.inr rfl)

/-! ### Stacks -/

theorem StackOp.run_moves (op : StackOp) : Moves op.run := by
  intro w
  have hw := Took.refl w
  cases op with
  | dupFromAlt =>
    show Outcome _ _ ((get >>= fun w => ofAccess (Stack.peek w.alt 0) >>= push) w)
    rw [run_bind, run_get]
    simp only [Stack.peek]
    cases halt : w.alt with
    | nil => exact ⟨fun _ => nofun, hw⟩
    | cons item rest =>
      exact push_moves hw.shuffles (.inl (.inr (halt ▸ List.mem_cons_self)))
  | toAlt =>
    refine (pop_takes hw).bind fun item w₁ h₁ => ⟨fun x hx => ?_, h₁.1.heap⟩
    rcases hx with hx | hx
    · exact .inl (h₁.1.onStack (.inl hx))
    · rcases List.mem_cons.mp hx with rfl | hx
      · exact .inl (.inl h₁.2)
      · exact .inl (h₁.1.onStack (.inr hx))
  | fromAlt =>
    unfold StackOp.run
    simp only
    rw [run_bind, run_get]
    simp only [Stack.pop, Stack.remove]
    cases halt : w.alt with
    | nil => exact ⟨fun _ => nofun, hw⟩
    | cons item rest =>
      have hrest : w.Shuffles { w with alt := rest } := by
        refine ⟨fun x hx => .inl ?_, rfl⟩
        rcases hx with hx | hx
        · exact .inl hx
        · exact .inr (halt ▸ List.mem_cons_of_mem _ hx)
      have hitem : item ∈ w.alt := halt ▸ List.mem_cons_self
      exact push_moves hrest (.inl (.inr hitem))
  | xdrop =>
    refine (popCount_takes hw _).bind fun n w₁ h₁ => ?_
    exact remove_moves h₁ n fun item w₂ _ h₂ => h₂
  | xswap =>
    refine (popCount_takes hw _).bind fun n w₁ h₁ => ?_
    by_cases hn : n = 0
    · simp only [hn, if_true]
      exact h₁.shuffles
    simp only [hn, if_false]
    rw [run_bind, peek_eq]
    cases hdeep : w₁.eval[n]? with
    | none => exact ⟨fun _ => nofun, h₁⟩
    | some deep =>
      -- the item at depth `n` is there, so neither replacement can fail
      obtain ⟨hlen, -⟩ := List.getElem?_eq_some_iff.mp hdeep
      have htop : w₁.eval[0]? = some w₁.eval[0] := List.getElem?_eq_getElem (by omega)
      show Outcome _ _ ((peek 0 >>= fun top => replace 0 deep >>= fun _ => replace n top) w₁)
      rw [run_bind, peek_eq, htop]
      show Outcome _ _ ((replace 0 deep >>= fun _ => replace n w₁.eval[0]) w₁)
      rw [run_bind, replace_eq, if_neg (by omega)]
      show Outcome _ _ (replace n w₁.eval[0] { w₁ with eval := w₁.eval.set 0 deep })
      rw [replace_eq, if_neg (by rw [List.length_set]; omega)]
      refine h₁.shuffles_eval fun x hx => .inl (.inl ?_)
      rcases List.mem_or_eq_of_mem_set hx with hx | rfl
      · rcases List.mem_or_eq_of_mem_set hx with hx | rfl
        · exact hx
        · exact List.mem_of_getElem? hdeep
      · exact List.mem_of_getElem? htop
  | xtuck =>
    refine (popInt32_takes hw _).bind fun n w₁ h₁ => ?_
    by_cases hn : n ≤ 0
    · simp only [hn, if_true]
      exact ⟨fun _ => nofun, h₁⟩
    simp only [hn, if_false]
    refine (peek_takes h₁ 0).bind fun item w₂ h₂ => ?_
    obtain ⟨rfl, hitem⟩ := h₂
    exact insert_moves h₁ _ hitem
  | depth => exact push_moves hw.shuffles (.inr rfl)
  | drop => exact (pop_takes hw).bind fun item w₁ h₁ => h₁.1.shuffles
  | dup =>
    refine (peek_takes hw 0).bind fun item w₁ h₁ => ?_
    obtain ⟨rfl, hitem⟩ := h₁
    exact push_moves hw.shuffles (.inl (.inl hitem))
  | nip => exact remove_moves hw 1 fun item w₂ _ h₂ => h₂
  | «over» =>
    refine (peek_takes hw 1).bind fun item w₁ h₁ => ?_
    obtain ⟨rfl, hitem⟩ := h₁
    exact push_moves hw.shuffles (.inl (.inl hitem))
  | pick =>
    refine (popCount_takes hw _).bind fun n w₁ h₁ => ?_
    refine (peek_takes h₁ n).bind fun item w₂ h₂ => ?_
    obtain ⟨rfl, hitem⟩ := h₂
    exact push_moves h₁.shuffles (.inl (.inl (h₁.mem hitem)))
  | roll =>
    refine (popCount_takes hw _).bind fun n w₁ h₁ => ?_
    by_cases hn : n = 0
    · simp only [hn, if_true]
      exact h₁.shuffles
    simp only [hn, if_false]
    exact remove_moves h₁ n fun item w₂ hitem h₂ => push_moves h₂ (.inl (.inl hitem))
  | rot => exact remove_moves hw 2 fun item w₂ hitem h₂ => push_moves h₂ (.inl (.inl hitem))
  | swap => exact remove_moves hw 1 fun item w₂ hitem h₂ => push_moves h₂ (.inl (.inl hitem))
  | tuck =>
    refine (peek_takes hw 0).bind fun item w₁ h₁ => ?_
    obtain ⟨rfl, hitem⟩ := h₁
    exact insert_moves hw 2 hitem

theorem Constant.run_moves (c : Constant) : Moves c.run := by
  intro w
  cases c with
  | empty | minusOne | small n => exact push_moves (Took.refl w).shuffles (.inr rfl)

/-- An operation that does not work on containers moves items, and takes operands only if it
fails. -/
theorem Plain.run_moves (verifier : Verifier) {op : Plain} (h : ∀ c, op ≠ .container c) :
    Moves (op.run verifier) := by
  cases op with
  | constant c => exact c.run_moves
  | nop => exact fun w => (Took.refl w).shuffles
  | stack op => exact op.run_moves
  | splice op => exact op.run_moves
  | number op => exact op.run_moves
  | crypto op => exact op.run_moves verifier
  | container op => exact absurd rfl (h op)

/-! ### Operands of operations on containers -/

theorem popContainer_takes {w₀ w : Workspace} (h : w₀.Took w) (instruction : String) :
    Outcome (fun ref w' => w₀.Took w' ∧ .container ref ∈ w₀.eval) w₀.Fails
      (popContainer instruction w) := by
  refine (pop_takes h).bind fun item w' h' => ?_
  cases item with
  | container ref => exact h'
  | _ => exact ⟨fun _ => nofun, h'.1⟩

/-- A size that there is no room for has been taken off too. -/
theorem popSize_takes {w₀ w : Workspace} (h : w₀.Took w) (instruction : String) :
    Outcome (fun _ => w₀.Took) w₀.Fails (popSize instruction w) := by
  refine (popCount_takes h instruction).bind fun count w₁ h₁ => ?_
  have hroom : Outcome (fun _ => w₀.Took) w₀.Fails (hasRoom count w₁) := h₁
  refine hroom.bind fun room w₂ h₂ => ?_
  cases room with
  | false => exact ⟨fun _ => nofun, h₂⟩
  | true => exact h₂

theorem element?_eq (ref : CellRef) (index : Nat) (w : Workspace) :
    element? ref index w = .ok (w.heap.element? ref.cell index) w := rfl

theorem popCopy_eq (w : Workspace) : popCopy w =
    match w.eval with
    | item :: rest =>
        .ok (w.heap.copy item).1 { w with eval := rest, heap := (w.heap.copy item).2 }
    | [] => .error (.depth ⟨0, 0⟩) w := by
  rw [popCopy, run_bind, pop_eq]
  cases w.eval <;> rfl

theorem arraySize_moves : Moves ContainerOp.arraySize.run := by
  intro w
  refine (pop_takes (.refl w)).bind fun item w₁ h₁ => ?_
  cases item with
  | host object => exact ⟨fun _ => nofun, h₁.1⟩
  | _ => exact push_moves h₁.1.shuffles (.inr rfl)

end StackScript
