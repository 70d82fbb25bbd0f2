import StackScript.Proofs.Engine.Inversion
import StackScript.Proofs.Operation.Locality
import Mathlib.Logic.Function.Iterate

/-!
# Scripts do not see what lies below on the stacks

The stacks are shared by all frames, and a script may take a depth or a count from the stack and use
it to reach down. It reaches no further than the items that make it succeed: a run that does not
fault and does not ask for the depth of the stack goes the same way with any other items below, and
never touches them. So a called script that works on its own operands can neither read nor move the
items of its callers.

Every part of a step is `Control.Local`, host calls of any kind included. Main statement:
`Engine.stacks_local`.
-/

namespace StackScript

open Control

namespace Engine

/-- The engine with more items below those on the stacks. -/
def atop (e : Engine) (below belowAlt : Stack Item) : Engine :=
  { e with work := e.work.atop below belowAlt }

/-- The instruction that the next step is about to perform. -/
def next? (e : Engine) : Option Instruction :=
  if e.status.isTerminal then none
  else
    match e.frames with
    | [] => none
    | frame :: _ =>
      match Instruction.decodeAt frame.script frame.cursor with
      | .ok found _ => some found
      | .error .. => none

/-- Whether the next step raises a fault. -/
def faults (e : Engine) : Bool := !e.status.isTerminal && e.step.status == .faulted

end Engine

namespace Control

variable {α β : Type}

/-- A success of the computation is the same whatever lies below on the stacks. -/
def Local (c : Control α) : Prop :=
  ∀ below belowAlt : Stack Item, Unmoved (fun e => e.atop below belowAlt) c

/-! ### Composition -/

theorem local_pure (a : α) : Local (pure a) := fun _ _ => unmoved_pure a

theorem local_throw (fault : Fault) : Local (throw fault : Control α) := fun _ _ =>
  unmoved_throw fault

theorem Local.bind {m : Control α} {f : α → Control β} (hm : Local m) (hf : ∀ a, Local (f a)) :
    Local (m >>= f) := fun below belowAlt => (hm below belowAlt).bind fun a => hf a below belowAlt

theorem local_ite {p : Prop} [Decidable p] {m m' : Control α} (hm : Local m) (hm' : Local m') :
    Local (if p then m else m') := fun below belowAlt =>
  unmoved_ite (hm below belowAlt) (hm' below belowAlt)

theorem local_guard {p : Prop} [Decidable p] (fault : Fault) {m : Control α} (hm : Local m) :
    Local (if p then (throw fault : Control Unit) >>= fun _ => m else m) :=
  local_ite ((local_throw fault).bind fun _ => hm) hm

/-- The frames and what the host provides are read, and not the stacks. -/
theorem local_get_bind {f : Engine → Control β}
    (hread : ∀ e below belowAlt, f (e.atop below belowAlt) = f e) (hf : ∀ e, Local (f e)) :
    Local (get >>= f) := fun below belowAlt =>
  unmoved_get_bind (fun e => hread e below belowAlt) fun e => hf e below belowAlt

theorem local_modify {f : Engine → Engine}
    (hf : ∀ e below belowAlt, f (e.atop below belowAlt) = (f e).atop below belowAlt) :
    Local (modify f : Control Unit) := fun below belowAlt =>
  unmoved_modify fun e => hf e below belowAlt

theorem local_ofExcept (result : Except Fault α) : Local (ofExcept result) := by
  cases result with
  | ok a => exact local_pure a
  | error fault => exact local_throw fault

theorem local_onWork {op : Operation α} (hop : op.Local) : Local (onWork op) := by
  intro below belowAlt e a e' h
  unfold onWork at h ⊢
  cases hrun : op e.work with
  | error fault work => simp [hrun] at h
  | ok a work =>
    simp only [hrun] at h
    cases h
    have hatop : op (e.atop below belowAlt).work = .ok a (work.atop below belowAlt) :=
      hop below belowAlt hrun
    simp only [hatop]
    rfl

/-! ### The parts of a step -/

theorem local_current : Local current :=
  local_get_bind (fun _ _ _ => rfl) fun _ => local_ofExcept _

theorem local_verifier : Local verifier := local_get_bind (fun _ _ _ => rfl) fun _ => local_pure _

theorem local_onFrame (reader : Reader α) : Local (onFrame reader) := by
  intro below belowAlt e a e' h
  cases hframes : e.frames with
  | nil => simp [onFrame, hframes] at h
  | cons frame rest =>
    have hframes' : (e.atop below belowAlt).frames = frame :: rest := hframes
    rw [onFrame_eq hframes] at h
    rw [onFrame_eq hframes']
    cases hread : reader.runAt frame.script frame.cursor with
    | error cause next => simp [hread] at h
    | ok a next =>
      simp only [hread] at h
      cases h
      rfl

theorem local_leave : Local leave := by
  apply local_modify
  intro e below belowAlt
  match hframes : e.frames with
  | [] => simp [Engine.atop, hframes]
  | [frame] => simp [Engine.atop, hframes]
  | frame :: caller :: rest => simp [Engine.atop, hframes]

theorem local_moveTo (target : Nat) : Local (moveTo target) := by
  apply local_modify
  intro e below belowAlt
  cases hframes : e.frames with
  | nil => simp [Engine.atop, hframes]
  | cons frame rest => simp [Engine.atop, hframes]

theorem local_enter (target : Nat) : Local (enter target) := by
  apply local_modify
  intro e below belowAlt
  cases hframes : e.frames with
  | nil => simp [Engine.atop, hframes]
  | cons frame rest => simp [Engine.atop, hframes]

theorem local_jumpTarget (offset : Int) : Local (jumpTarget offset) :=
  local_current.bind fun _ => local_guard _ (local_pure _)

theorem local_jump (kind : Jump) (offset : Int) : Local (jump kind offset) := by
  apply (local_jumpTarget offset).bind
  intro target
  have hpop := local_onWork Operation.local_popBool
  cases kind with
  | always => exact local_moveTo target
  | ifTrue => exact hpop.bind fun _ => local_ite (local_moveTo target) (local_pure ())
  | ifFalse => exact hpop.bind fun _ => local_ite (local_moveTo target) (local_pure ())
  | call => exact local_enter target

theorem local_findScript (hash : ScriptHash) : Local (findScript hash) := by
  intro below belowAlt e script e' h
  cases htable : e.table with
  | none =>
    rw [findScript_of_none htable] at h
    cases h
  | some table =>
    have htable' : (e.atop below belowAlt).table = some table := htable
    rw [findScript_eq htable] at h
    rw [findScript_eq htable']
    cases hget : table.get hash with
    | mk found table' =>
      cases found with
      | none => simp [hget] at h
      | some found =>
        simp only [hget] at h
        cases h
        rfl

theorem local_invoke (kind : Invocation) (hash : ScriptHash) : Local (invoke kind hash) := by
  apply (local_findScript hash).bind
  intro script
  apply local_modify
  intro e below belowAlt
  cases kind with
  | nested => rfl
  | tail => rfl

/-! ### Host calls -/

theorem local_pushHash (depth : Nat) (missing : Fault) : Local (pushHash depth missing) := by
  intro below belowAlt e a e' h
  rw [pushHash_eq] at h ⊢
  cases hasked : e.frames[depth]? with
  | none => simp [hasked] at h
  | some frame =>
    simp only [hasked] at h
    cases h
    simp [Engine.atop, Workspace.atop, hasked]

theorem local_breakAt (offset : Nat) : Local (act (.breakAt offset)) := by
  intro below belowAlt e a e' h
  rw [breakAt_eq] at h ⊢
  cases hframes : e.frames with
  | nil => simp [hframes] at h
  | cons frame rest =>
    simp only [hframes] at h
    cases h
    simp [Engine.atop, hframes]

theorem local_act (action : HostAction) : Local (act action) := by
  cases action with
  | push literal => exact local_modify fun _ _ _ => rfl
  | pop => exact (local_onWork Operation.local_pop).bind fun _ => local_pure _
  | load script pushOnly => exact local_modify fun _ _ _ => rfl
  | loadSource source =>
    simp only [act]
    cases Assembly.assemble source with
    | ok script => exact local_modify fun _ _ _ => rfl
    | error cause => exact local_throw _
  | breakAt offset => exact local_breakAt offset
  | register name actions => exact local_modify fun _ _ _ => rfl
  | dispose => exact local_modify fun _ _ _ => rfl
  | fail fault => exact local_throw fault

theorem local_actions (actions : List HostAction) : Local (actions.forM act) := by
  induction actions with
  | nil => exact local_pure ()
  | cons action rest ih => exact (local_act action).bind fun _ => ih

theorem local_handle (handler : Handler) : Local (handle handler) := by
  cases handler with
  | scriptContainer =>
    apply local_get_bind (fun _ _ _ => rfl)
    intro e
    cases e.container with
    | some container => exact local_onWork (Operation.local_push _)
    | none => exact local_throw _
  | executingHash => exact local_pushHash _ _
  | callingHash => exact local_pushHash _ _
  | entryHash => exact local_get_bind (fun _ _ _ => rfl) fun _ => local_pushHash _ _
  | actions actions => exact local_actions actions

theorem local_call (name : Bytes) : Local (call name) := by
  apply local_guard
  apply local_get_bind (fun _ _ _ => rfl)
  intro e
  cases e.service.find? (Text.Utf8.decodeLossy name) with
  | some handler => exact local_handle handler
  | none => exact local_throw _

/-! ### Instructions -/

/-- Every instruction but one. -/
theorem local_perform {found : Instruction} (hdepth : found ≠ .plain (.stack .depth)) :
    Local (perform found) := by
  cases found with
  | pushBytes data => exact local_onWork (Operation.local_push _)
  | pushData width data => exact local_onWork (Operation.local_push _)
  | jump kind offset => exact local_jump kind offset
  | invoke kind hash => exact local_invoke kind hash
  | syscall name => exact local_call name
  | ret => exact local_leave
  | plain op =>
    apply local_verifier.bind
    intro verifier
    apply local_onWork
    exact op.run_local verifier fun h => hdepth (congrArg Instruction.plain h)

theorem local_fetch : Local fetch := by
  apply local_current.bind
  intro frame
  apply (local_onFrame _).bind
  intro byte
  exact local_guard _ (local_onFrame _)

/-- What is fetched stands at the cursor. -/
theorem decodeAt_of_fetch {e e' : Engine} {frame : Frame} {rest : Stack Frame} {found : Instruction}
    (hframes : e.frames = frame :: rest) (h : fetch e = .ok found e') :
    ∃ next, Instruction.decodeAt frame.script frame.cursor = .ok found next := by
  cases hbyte : Reader.byte.runAt frame.script frame.cursor with
  | error cause next =>
    rw [fetch_of_unread hframes hbyte] at h
    cases h
  | ok byte behind =>
    by_cases hrefused : (frame.pushOnly && isRefused byte) = true
    · rw [fetch_of_refused hframes hbyte hrefused] at h
      cases h
    · rw [fetch_eq hframes hbyte hrefused] at h
      cases hdecode : Instruction.decodeAt frame.script frame.cursor with
      | error cause next => simp [hdecode] at h
      | ok read next =>
        simp only [hdecode] at h
        cases h
        exact ⟨next, rfl⟩

/-- The next instruction is performed in the same way, unless it asks for the depth of the stack. -/
theorem advance_atop {e e' : Engine} {frame : Frame} {rest : Stack Frame}
    (hframes : e.frames = frame :: rest)
    (hdepth : ∀ next, Instruction.decodeAt frame.script frame.cursor ≠
      .ok (.plain (.stack .depth)) next)
    (h : advance e = .ok () e') (below belowAlt : Stack Item) :
    advance (e.atop below belowAlt) = .ok () (e'.atop below belowAlt) := by
  have hframes' : (e.atop below belowAlt).frames = frame :: rest := hframes
  unfold advance at h ⊢
  rw [run_bind, current_eq hframes] at h
  rw [run_bind, current_eq hframes']
  by_cases hend : frame.atEnd = true
  · simp only [hend, if_true] at h ⊢
    exact local_leave below belowAlt h
  · simp only [hend] at h ⊢
    rw [if_neg (by decide), run_bind] at h ⊢
    cases hfetch : fetch e with
    | error fault e₁ => simp [hfetch] at h
    | ok found e₁ =>
      rw [local_fetch below belowAlt hfetch]
      simp only [hfetch] at h
      have hfound : found ≠ .plain (.stack .depth) := by
        rintro rfl
        obtain ⟨next, hdecode⟩ := decodeAt_of_fetch hframes hfetch
        exact hdepth next hdecode
      exact local_perform hfound below belowAlt h

end Control

namespace Engine

variable {e : Engine}

theorem next?_of_cons {frame : Frame} {rest : Stack Frame} (hlive : e.status.isTerminal = false)
    (hframes : e.frames = frame :: rest) {found : Instruction} {next : Nat}
    (hdecode : Instruction.decodeAt frame.script frame.cursor = .ok found next) :
    e.next? = some found := by
  simp [next?, hlive, hframes, hdecode]

/-- **A step does not see what lies below**, if it does not fault and is no `DEPTH`. -/
theorem step_atop (hfaults : e.faults = false) (hdepth : e.next? ≠ some (.plain (.stack .depth)))
    (below belowAlt : Stack Item) :
    (e.atop below belowAlt).step = e.step.atop below belowAlt := by
  by_cases hterminal : e.status.isTerminal = true
  · have hterminal' : (e.atop below belowAlt).status.isTerminal = true := hterminal
    rw [step_of_terminal hterminal, step_of_terminal hterminal']
  rw [Bool.not_eq_true] at hterminal
  have hlive : (e.atop below belowAlt).status.isTerminal = false := hterminal
  cases hframes : e.frames with
  | nil =>
    have hframes' : (e.atop below belowAlt).frames = [] := hframes
    rw [step_of_nil hterminal hframes, step_of_nil hlive hframes']
    rfl
  | cons frame rest =>
    have hframes' : (e.atop below belowAlt).frames = frame :: rest := hframes
    cases hadvance : advance e with
    | error fault last =>
      simp [faults, hterminal, step_of_advance_error hterminal hframes hadvance] at hfaults
    | ok _ last =>
      have hsame := advance_atop hframes (fun next hdecode =>
        hdepth (next?_of_cons hterminal hframes hdecode)) hadvance below belowAlt
      rw [step_of_cons hterminal hframes, step_of_cons hlive hframes', hadvance, hsame]
      have hbreak : (last.atop below belowAlt).atBreakpoint = last.atBreakpoint := rfl
      simp only [hbreak]
      split
      · rfl
      · rfl

/-- **Stacks are local.** A run in which no step faults and none asks for the depth of the stack
goes the same way, step by step, with any other items below those on the stacks: frames, status,
heap and what the host provides are the same after each step, and the other items lie untouched
below the items that the run has left on the stacks. -/
theorem stacks_local (e : Engine) (k : Nat)
    (hrun : ∀ i < k, (Engine.step^[i] e).faults = false ∧
      (Engine.step^[i] e).next? ≠ some (.plain (.stack .depth)))
    (below belowAlt : Stack Item) (i : Nat) (hi : i ≤ k) :
    Engine.step^[i] (e.atop below belowAlt) = (Engine.step^[i] e).atop below belowAlt := by
  induction i with
  | zero => rfl
  | succ i ih =>
    obtain ⟨hfaults, hdepth⟩ := hrun i hi
    rw [Function.iterate_succ_apply', Function.iterate_succ_apply', ih (Nat.le_of_succ_le hi)]
    exact step_atop hfaults hdepth below belowAlt

/-- An engine with two items on the stack and the script `CALL 4` `RET` `PUSH2` `PACK` `TOALTSTACK`
`RET`: the call packs the items and puts the array aside. -/
def packingInCall : Engine :=
  { Engine.new .secp256k1 with
    frames := [{
      script := .ofBytes [0x65, 0x04, 0x00, 0x66, 0x52, 0xc1, 0x6b, 0x66]
      breakpoints := 0 }]
    work := { eval := [.integer 9, .bytes [0xff]] } }

/-- The items of whoever called this script stay where they are. -/
theorem stacks_local_packingInCall :
    (∀ i < 6, (Engine.step^[i] packingInCall).faults = false ∧
      (Engine.step^[i] packingInCall).next? ≠ some (.plain (.stack .depth))) ∧
    (∀ i ≤ 6, Engine.step^[i] (packingInCall.atop [.boolean true] [.integer 5]) =
      (Engine.step^[i] packingInCall).atop [.boolean true] [.integer 5]) ∧
    (Engine.step^[6] (packingInCall.atop [.boolean true] [.integer 5])).work.eval =
      [.boolean true] ∧
    (Engine.step^[6] (packingInCall.atop [.boolean true] [.integer 5])).work.alt =
      [.container ⟨.array, 0⟩, .integer 5] := by
  have hrun : ∀ i < 6, (Engine.step^[i] packingInCall).faults = false ∧
      (Engine.step^[i] packingInCall).next? ≠ some (.plain (.stack .depth)) := by decide +kernel
  have hall := stacks_local packingInCall 6 hrun [.boolean true] [.integer 5]
  refine ⟨hrun, hall, ?_, ?_⟩
  · rw [hall 6 (Nat.le_refl 6)]
    decide +kernel
  · rw [hall 6 (Nat.le_refl 6)]
    decide +kernel

end Engine

end StackScript
