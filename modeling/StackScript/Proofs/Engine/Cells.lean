import StackScript.Proofs.Engine.Faults
import StackScript.Proofs.Engine.Reachable
import StackScript.Proofs.Operation.Writes

/-!
# Only `SETITEM` writes to containers

A container may be shared by both stacks and by any number of other containers, itself included. So
it matters that containers stay as they are unless a script asks for a change: a step that is no
`SETITEM`, or one that fails, leaves every container there is as it is. A `SETITEM` that succeeds
replaces one element. In particular no container ever gets longer or shorter, and `PICKITEM` gives
the same item for every slot but the one that was written, whatever the reference to it.

Main statement: `Engine.only_setItem_writes`.
-/

namespace StackScript

open Workspace Control

/-! ### Picking elements -/

namespace Operation

theorem popCount_of_index? (instruction : String) (w : Workspace) {position : Item} {index : Nat}
    (h : position.index? = some index) (below : Stack Item) :
    popCount instruction { w with eval := position :: below } = .ok index { w with eval := below } := by
  unfold Item.index? at h
  split at h
  · rename_i value hvalue
    split at h
    · rename_i hrange
      cases h
      have hinteger : popInteger instruction { w with eval := position :: below } =
          .ok value { w with eval := below } := by
        simp only [popInteger, run_bind, pop_eq, hvalue]
        rfl
      have hint32 : popInt32 instruction { w with eval := position :: below } =
          .ok value { w with eval := below } := by
        simp only [popInt32, run_bind, hinteger, hrange.1, if_true]
        rfl
      simp only [popCount, run_bind, hint32, Int.not_lt.mpr hrange.2, if_false]
      rfl
    · cases h
  · cases h

/-- Below an index that is taken off there is a reference, and the element is looked up. -/
theorem pickItem_eq (w : Workspace) {position : Item} {index : Nat} (h : position.index? = some index)
    (ref : CellRef) (below : Stack Item) :
    ContainerOp.pickItem.run { w with eval := position :: .container ref :: below } =
      (w.heap.element? ref.cell index).elim
        (.error (.indexRange index (w.heap.length ref.cell)) { w with eval := below })
        fun item => .ok () { w with eval := item :: below } := by
  unfold ContainerOp.run
  simp only
  rw [run_bind, popCount_of_index? _ w h]
  have hpop : popContainer ContainerOp.pickItem.mnemonic { w with eval := .container ref :: below } =
      .ok ref { w with eval := below } := by
    rw [popContainer, run_bind, pop_eq]
    rfl
  simp only
  rw [run_bind, hpop]
  simp only
  rw [run_bind, element?_eq]
  simp only
  cases w.heap.element? ref.cell index <;> rfl

end Operation

namespace Workspace

/-- `PICKITEM` gives an item for a reference and a position on top of the evaluation stack. -/
def Picks (w : Workspace) (ref : CellRef) (position item : Item) : Prop :=
  ∀ below, ContainerOp.pickItem.run { w with eval := position :: .container ref :: below } =
    .ok () { w with eval := item :: below }

/-- What `PICKITEM` gives is the element at the index. -/
theorem picks_iff {w : Workspace} {ref : CellRef} {position item : Item} :
    w.Picks ref position item ↔
      ∃ index, position.index? = some index ∧ w.heap.element? ref.cell index = some item := by
  constructor
  · intro h
    have hrun := h []
    -- The operation has got beyond taking off the index.
    obtain ⟨index, hindex⟩ : ∃ index, position.index? = some index := by
      have hpops := Operation.popCount_pops ContainerOp.pickItem.mnemonic
        { w with eval := [position, .container ref] }
      unfold ContainerOp.run at hrun
      simp only at hrun
      rw [run_bind] at hrun
      generalize Operation.popCount _ _ = result at hrun hpops
      cases result with
      | error => cases hrun
      | ok index =>
        obtain ⟨item, hitem, heval⟩ := hpops
        obtain ⟨rfl, -⟩ := List.cons.inj heval
        exact ⟨index, hitem⟩
    rw [Operation.pickItem_eq w hindex] at hrun
    refine ⟨index, hindex, ?_⟩
    cases helement : w.heap.element? ref.cell index with
    | none =>
      rw [helement] at hrun
      cases hrun
    | some element =>
      rw [helement] at hrun
      cases hrun
      rfl
  · rintro ⟨index, hindex, hitem⟩ below
    rw [Operation.pickItem_eq w hindex, hitem]
    rfl

end Workspace

/-! ### Instructions -/

namespace Engine

/-- The instruction that writes to containers. -/
abbrev setItem : Instruction := .plain (.container .setItem)

variable {e : Engine} {frame : Frame} {rest : Stack Frame}

theorem keepsCells_of_operation? {found : Instruction} {op : Operation Unit}
    (hop : operation? e found = some op) (hfound : found ≠ setItem) : Operation.KeepsCells op := by
  have hpush : ∀ data, Operation.KeepsCells (Operation.pushBytes data) := fun data =>
    Operation.Moves.keepsCells fun w => Operation.push_moves (Took.refl w).shuffles (.inr rfl)
  cases found with
  | pushBytes data =>
    cases hop
    exact hpush data
  | pushData width data =>
    cases hop
    exact hpush data
  | plain plain =>
    cases hop
    exact Plain.run_preserves _ fun h => hfound (h ▸ rfl)
  | jump | invoke | syscall | ret => cases hop

/-- Any other instruction leaves the containers as they are. -/
theorem Owned.performs_preserves (h : e.Owned) {found : Instruction}
    {result : EStateM.Result Fault Engine Unit} (hp : Performs e frame rest found result)
    (hfound : found ≠ setItem) :
    Outcome (fun _ last => e.work.Preserves last.work) (fun _ last => e.work.Preserves last.work)
      result := by
  have hbool := Operation.popBool_takes (.refl e.work)
  have hpush : ∀ item : Item, item.ref? = none →
      e.work.Preserves { e.work with eval := item :: e.work.eval } := fun item hitem =>
    (Preserves.refl e.work).append_eval [item] fun x hx => by
      rw [List.mem_singleton.mp hx]
      exact .inr (Item.beyond_of_ref?_eq_none hitem _)
  cases hp with
  | refuse => exact .refl e.work
  | work hop hrun =>
    have hkeeps := keepsCells_of_operation? hop hfound e.work h.work
    rw [hrun] at hkeeps
    exact hkeeps
  | workFault hop hrun =>
    have hkeeps := keepsCells_of_operation? hop hfound e.work h.work
    rw [hrun] at hkeeps
    exact hkeeps
  | branch _ _ hpop | skip _ hpop =>
    rw [hpop] at hbool
    exact .of_took hbool
  | branchFault hpop =>
    rw [hpop] at hbool
    exact .of_took hbool.2
  | container => exact hpush _ rfl
  | hash => exact hpush _ rfl
  | move | enter | missing | nested | tail | leave => exact .refl e.work

/-- A `SETITEM` writes to one slot if it succeeds, and to none if it fails. -/
theorem Owned.performs_stores (h : e.Owned) {result : EStateM.Result Fault Engine Unit}
    (hp : Performs e frame rest setItem result) :
    Outcome
      (fun _ last => ∃ target index value stored, e.work.Stores last.work target index value stored)
      (fun _ last => e.work.Preserves last.work) result := by
  have hstores := setItem_stores h.work
  cases hp with
  | refuse hrefuses => cases hrefuses
  | work hop hrun =>
    cases hop
    replace hrun : ContainerOp.setItem.run e.work = _ := hrun
    rw [hrun] at hstores
    exact hstores
  | workFault hop hrun =>
    cases hop
    replace hrun : ContainerOp.setItem.run e.work = _ := hrun
    rw [hrun] at hstores
    exact hstores

/-! ### Steps -/

/-- The step is a `SETITEM` that succeeds. -/
def SetsItem (e : Engine) : Prop :=
  e.status.isTerminal = false ∧ e.step.status ≠ .faulted ∧ ∃ frame rest next,
    e.frames = frame :: rest ∧
      Instruction.decodeAt frame.script frame.cursor = .ok setItem next

/-- What the next instruction does to containers. -/
theorem Owned.advance_writes (h : e.Owned) (hframes : e.frames = frame :: rest) :
    Outcome
      (fun _ last =>
        (∃ next, Instruction.decodeAt frame.script frame.cursor = .ok setItem next) ∧
          (∃ target index value stored, e.work.Stores last.work target index value stored) ∨
        (¬∃ next, Instruction.decodeAt frame.script frame.cursor = .ok setItem next) ∧
          e.work.Preserves last.work)
      (fun _ last => e.work.Preserves last.work) (advance e) := by
  have hadvances := advances hframes
  generalize advance e = result at hadvances ⊢
  cases hadvances with
  | atEnd hend =>
    refine .inr ⟨?_, .refl e.work⟩
    rintro ⟨next, hdecode⟩
    obtain ⟨byte, hholds, -⟩ := Instruction.exists_opcode_of_decodeAt hdecode
    have hle := hholds.stop_le
    simp only [Frame.atEnd, decide_eq_true_eq] at hend
    omega
  | refuse => exact .refl e.work
  | undecoded => exact .refl e.work
  | @perform found _ _ next _ _ hdecode =>
    have hmoved : { e with frames := { frame with cursor := next } :: rest }.Owned :=
      ⟨h.service, h.work⟩
    have hperforms := Control.performs hmoved.service rfl found
    by_cases hfound : found = setItem
    · subst hfound
      exact (hmoved.performs_stores hperforms).mono (fun _ _ hs => .inl ⟨⟨next, hdecode⟩, hs⟩)
        fun _ _ hk => hk
    · refine (hmoved.performs_preserves hperforms hfound).mono (fun _ _ hk => .inr ⟨?_, hk⟩)
        fun _ _ hk => hk
      rintro ⟨next', hdecode'⟩
      rw [hdecode] at hdecode'
      cases hdecode'
      exact hfound rfl

/-- **A step that is no successful `SETITEM` leaves the containers as they are**, and one that is
writes to one slot. -/
theorem Owned.step_writes (h : e.Owned) :
    e.SetsItem ∧ (∃ target index value stored, e.work.Stores e.step.work target index value stored) ∨
      ¬e.SetsItem ∧ e.work.Preserves e.step.work := by
  by_cases hterminal : e.status.isTerminal = true
  · refine .inr ⟨fun hsets => ?_, ?_⟩
    · rw [hsets.1] at hterminal
      cases hterminal
    · rw [step_of_terminal hterminal]
      exact .refl e.work
  rw [Bool.not_eq_true] at hterminal
  cases hframes : e.frames with
  | nil =>
    refine .inr ⟨?_, ?_⟩
    · rintro ⟨-, -, frame, rest, next, hcons, -⟩
      rw [hframes] at hcons
      cases hcons
    · rw [step_of_nil hterminal hframes]
      exact .refl e.work
  | cons frame rest =>
    have hsets : e.SetsItem ↔ e.step.status ≠ .faulted ∧
        ∃ next, Instruction.decodeAt frame.script frame.cursor = .ok setItem next := by
      constructor
      · rintro ⟨-, hfault, frame', rest', next, hcons, hdecode⟩
        cases hframes.symm.trans hcons
        exact ⟨hfault, next, hdecode⟩
      · rintro ⟨hfault, next, hdecode⟩
        exact ⟨hterminal, hfault, frame, rest, next, hframes, hdecode⟩
    rw [hsets, step_of_cons hterminal hframes]
    have hwrites := h.advance_writes hframes
    cases hadvance : advance e with
    | error fault last =>
      rw [hadvance] at hwrites
      refine .inr ⟨?_, hwrites⟩
      rintro ⟨hfault, -⟩
      exact hfault rfl
    | ok _ last =>
      rw [hadvance] at hwrites
      have hlast := advance_status_ne_faulted h.service hframes hterminal hadvance
      -- A pause changes neither the workspace nor whether there was a fault.
      by_cases hbreak : last.atBreakpoint = true
      · simp only [if_pos hbreak]
        exact hwrites.imp (fun hw => ⟨⟨by simp, hw.1⟩, hw.2⟩) fun hw => ⟨fun hs => hw.1 hs.2, hw.2⟩
      · simp only [if_neg hbreak]
        exact hwrites.imp (fun hw => ⟨⟨hlast, hw.1⟩, hw.2⟩) fun hw => ⟨fun hs => hw.1 hs.2, hw.2⟩

/-- No container gets longer or shorter in a step. -/
theorem Owned.length_step (h : e.Owned) {c : Nat} (hc : c < e.work.heap.size) :
    c < e.step.work.heap.size ∧ e.step.work.heap.length c = e.work.heap.length c := by
  rcases h.step_writes with ⟨-, target, index, value, stored, hstores⟩ | ⟨-, hkeeps⟩
  · refine ⟨hc.trans_le hstores.size_le, ?_⟩
    rw [← Heap.length_elements, hstores.elements_eq c hc, ← Heap.length_elements]
    split
    · exact List.length_set
    · rfl
  · refine ⟨hc.trans_le hkeeps.size_le, ?_⟩
    rw [← Heap.length_elements, hkeeps.elements_eq c hc, Heap.length_elements]

/-- No container gets longer or shorter in a run. -/
theorem Owned.length_steps (h : e.Owned) {c : Nat} (hc : c < e.work.heap.size) (n : Nat) :
    c < (Engine.step^[n] e).work.heap.size ∧
      (Engine.step^[n] e).work.heap.length c = e.work.heap.length c := by
  induction n with
  | zero => exact ⟨hc, rfl⟩
  | succ n ih =>
    rw [Function.iterate_succ_apply']
    obtain ⟨hlt, hlength⟩ := (h.steps n).length_step ih.1
    exact ⟨hlt, hlength.trans ih.2⟩

/-! ### References -/

/-- A reference to a cell keeps its kind, since none to an old cell comes up that was not there. -/
theorem Owned.kind_eq (h : e.Owned) {ref ref' : CellRef} (href : e.work.Mentions ref)
    (href' : e.step.work.Mentions ref') (hcell : ref'.cell = ref.cell) : ref'.kind = ref.kind := by
  obtain ⟨kinds, hsound⟩ := h.work
  have hlt : ref.cell < e.work.heap.size := by
    obtain ⟨item, hstack | ⟨cell, hmem⟩, hitem⟩ := href
    · exact (hsound.onStack item hstack ref hitem).1
    · exact (hsound.heap.refers cell item hmem ref hitem).1
  have hknown : ∀ item, e.step.work.Has item → e.work.Has item ∨ item.Beyond e.work.heap.size := by
    rcases h.step_writes with ⟨-, _, _, _, _, hstores⟩ | ⟨-, hkeeps⟩
    · exact hstores.known
    · exact hkeeps.known
  obtain ⟨item, hhas, hitem⟩ := href'
  rcases hknown item hhas with hold | hnew
  · rw [← hsound.kind_eq ⟨item, hold, hitem⟩, hcell, hsound.kind_eq href]
  · have hle := hnew ref' hitem
    omega

/-! ### The main statement -/

theorem picks_congr {w w' : Workspace} {ref : CellRef} {position : Item}
    (h : ∀ index, position.index? = some index →
      w'.heap.element? ref.cell index = w.heap.element? ref.cell index) (item : Item) :
    w.Picks ref position item ↔ w'.Picks ref position item := by
  rw [picks_iff, picks_iff]
  refine exists_congr fun index => and_congr_right fun hindex => ?_
  rw [h index hindex]

/-- **Only `SETITEM` writes to containers.** In a step no container changes its kind. If the step is
no successful `SETITEM`, no container changes its elements. If it is one, it replaces one element of
its target, by the value on top of the stack or, if that is a struct, by a new one. `PICKITEM` gives
the same as before for any other slot, through any reference. No container changes its length in any
number of steps. -/
theorem only_setItem_writes (e : Engine) (h : e.Reachable) :
    (∀ ref ref', e.work.Mentions ref → e.step.work.Mentions ref' → ref'.cell = ref.cell →
      ref'.kind = ref.kind) ∧
    (¬e.SetsItem →
      (∀ c < e.work.heap.size, e.step.work.heap.elements c = e.work.heap.elements c) ∧
      ∀ ref position item, ref.cell < e.work.heap.size →
        (e.work.Picks ref position item ↔ e.step.work.Picks ref position item)) ∧
    (e.SetsItem → ∃ target index value stored,
      e.work.Stores e.step.work target index value stored ∧
      ∀ ref position item, ref.cell < e.work.heap.size →
        ¬(ref.cell = target.cell ∧ position.index? = some index) →
        (e.work.Picks ref position item ↔ e.step.work.Picks ref position item)) ∧
    ∀ n c, c < e.work.heap.size → c < (Engine.step^[n] e).work.heap.size ∧
      (Engine.step^[n] e).work.heap.length c = e.work.heap.length c := by
  have howned := h.owned
  refine ⟨fun _ _ => howned.kind_eq, fun hno => ?_, fun hsets => ?_, fun n _ hc =>
    howned.length_steps hc n⟩
  · rcases howned.step_writes with ⟨hsets, -⟩ | ⟨-, hkeeps⟩
    · exact absurd hsets hno
    refine ⟨hkeeps.elements_eq, fun ref position item hcell => picks_congr (fun index _ => ?_) item⟩
    rw [← Heap.getElem?_elements, hkeeps.elements_eq _ hcell, Heap.getElem?_elements]
  · rcases howned.step_writes with ⟨-, target, index, value, stored, hstores⟩ | ⟨hno, -⟩
    · refine ⟨target, index, value, stored, hstores, fun ref position item hcell hother =>
        picks_congr (fun index' hindex => ?_) item⟩
      rw [← Heap.getElem?_elements, hstores.elements_eq _ hcell, ← Heap.getElem?_elements]
      split
      · rename_i heq
        refine List.getElem?_set_ne fun hsame => hother ⟨heq, ?_⟩
        rw [hindex, hsame]
      · rfl
    · exact absurd hsets hno

/-- An engine with an array, an index and a struct on the stack, about to store the struct. -/
def handedOver : Engine :=
  ((((Engine.new .secp256k1).load (.ofBytes [0xc4]) false).push
    (.container .array [.boolean false, .boolean true])).push (.integer 0)).push (.container .struct [])

/-- The array gets a copy of the struct in place of its first element and keeps the second one. -/
theorem only_setItem_writes_handedOver :
    handedOver.Reachable ∧ handedOver.SetsItem ∧
      (∃ target index value stored,
        handedOver.work.Stores handedOver.step.work target index value stored) ∧
      handedOver.step.work.Picks ⟨.array, 0⟩ (.integer 1) (.boolean true) := by
  have hreachable : handedOver.Reachable :=
    .push rfl (.push rfl (.push rfl (.fresh ⟨rfl, rfl, rfl, rfl⟩)))
  have hsets : handedOver.SetsItem := ⟨rfl, by decide +kernel, _, _, _, rfl, rfl⟩
  obtain ⟨-, -, hwrites, -⟩ := only_setItem_writes handedOver hreachable
  obtain ⟨target, index, value, stored, hstores, hpicks⟩ := hwrites hsets
  refine ⟨hreachable, hsets, ⟨target, index, value, stored, hstores⟩, ?_⟩
  refine (hpicks _ _ _ (by decide) fun hslot => ?_).mp (picks_iff.mpr ⟨1, rfl, rfl⟩)
  -- The index below the struct is the first one.
  obtain ⟨position, hposition, heval⟩ := hstores.operands
  have hstack : handedOver.work.eval =
      [.container ⟨.struct, 1⟩, .integer 0, .container ⟨.array, 0⟩] := rfl
  obtain ⟨-, hbelow⟩ := List.cons.inj (hstack.symm.trans heval)
  obtain ⟨rfl, -⟩ := List.cons.inj hbelow
  cases hposition
  cases hslot.2

end Engine

end StackScript
