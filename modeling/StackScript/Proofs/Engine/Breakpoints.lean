import StackScript.Engine.Run
import StackScript.Proofs.Engine.Inversion
import Mathlib.Data.List.Forall2

/-!
# Breakpoints do not influence results

Two engines are alike if they differ in nothing but breakpoints: the sets themselves, and which set
each frame uses. A breakpoint makes an engine pause after a step, and a pause is not looked at by
the next step. So alike engines stay alike step by step, however often either of them pauses, is
resumed, or has its breakpoints changed.

The argument is a relation between two computations: `Control.Respects` says that they come out
alike from alike engines. Every part of a step respects it, host calls of any kind included.

Main statements: `Engine.Agrees.step`, and `Engine.breakpoints_harmless` for whole sessions with a
debugger and for repeated runs.
-/

namespace StackScript

/-- The frames differ in nothing but the number of their set of breakpoints. -/
structure Frame.Alike (f f' : Frame) : Prop where
  script : f'.script = f.script
  cursor : f'.cursor = f.cursor
  pushOnly : f'.pushOnly = f.pushOnly
  hash? : f'.hash? = f.hash?

section FramesAlike

variable {frames frames' : List Frame}

theorem alike_getElem? (h : List.Forall₂ Frame.Alike frames frames') (depth : Nat) :
    Option.Rel Frame.Alike frames[depth]? frames'[depth]? := by
  induction h generalizing depth with
  | nil => exact .none
  | cons hframe _ ih =>
    cases depth with
    | zero => exact .some hframe
    | succ depth => exact ih depth

theorem alike_set (h : List.Forall₂ Frame.Alike frames frames') (depth : Nat) {f f' : Frame}
    (hf : f.Alike f') : List.Forall₂ Frame.Alike (frames.set depth f) (frames'.set depth f') := by
  induction h generalizing depth with
  | nil => exact .nil
  | cons hframe hrest ih =>
    cases depth with
    | zero => exact .cons hf hrest
    | succ depth => exact .cons hframe (ih depth)

end FramesAlike

theorem Frame.Alike.hash_eq {f f' : Frame} (h : f.Alike f') (crypto : Crypto) :
    f'.hash crypto = f.hash crypto := by
  rw [Frame.hash, Frame.hash, h.hash?, h.script]

theorem Frame.Alike.remember {f f' : Frame} (h : f.Alike f') (crypto : Crypto) :
    (f.remember crypto).Alike (f'.remember crypto) :=
  ⟨h.script, h.cursor, h.pushOnly, congrArg some (h.hash_eq crypto)⟩

namespace Engine

/-- The engines differ in nothing but breakpoints and status. -/
structure Alike (e e' : Engine) : Prop where
  crypto : e'.crypto = e.crypto
  table : e'.table = e.table
  container : e'.container = e.container
  service : e'.service = e.service
  work : e'.work = e.work
  reason : e'.reason = e.reason
  frames : List.Forall₂ Frame.Alike e.frames e'.frames

/-- The engines are alike and both can go on. -/
structure Live (e e' : Engine) : Prop extends Alike e e' where
  status : e.status.isTerminal = false
  status' : e'.status.isTerminal = false

/-- The engines are alike, and have ended in the same way or have both not ended. -/
structure Agrees (e e' : Engine) : Prop extends Alike e e' where
  status : e'.status = e.status ∨ e.status.isTerminal = false ∧ e'.status.isTerminal = false

/-- Alike engines have frames one by one, or none. -/
theorem Alike.frames_cases {e e' : Engine} (h : e.Alike e') :
    (e.frames = [] ∧ e'.frames = []) ∨ ∃ frame rest frame' rest', e.frames = frame :: rest ∧
      e'.frames = frame' :: rest' ∧ frame.Alike frame' ∧ List.Forall₂ Frame.Alike rest rest' := by
  have hframes := h.frames
  generalize e.frames = frames at hframes ⊢
  generalize e'.frames = frames' at hframes ⊢
  cases hframes with
  | nil => exact .inl ⟨rfl, rfl⟩
  | cons hframe hrest => exact .inr ⟨_, _, _, _, rfl, rfl, hframe, hrest⟩

theorem Alike.withStatus {e e' : Engine} (h : e.Alike e') (status status' : Status) :
    { e with status }.Alike { e' with status := status' } :=
  ⟨h.crypto, h.table, h.container, h.service, h.work, h.reason, h.frames⟩

theorem Alike.withFault {e e' : Engine} (h : e.Alike e') (fault : Fault) :
    { e with status := .faulted, reason := some fault }.Alike
      { e' with status := .faulted, reason := some fault } :=
  ⟨h.crypto, h.table, h.container, h.service, h.work, rfl, h.frames⟩

theorem Live.agrees {e e' : Engine} (h : e.Live e') : e.Agrees e' :=
  ⟨h.toAlike, .inr ⟨h.status, h.status'⟩⟩

theorem Live.withWork {e e' : Engine} (h : e.Live e') (work : Workspace) :
    { e with work }.Live { e' with work } :=
  ⟨⟨h.crypto, h.table, h.container, h.service, rfl, h.reason, h.frames⟩, h.status, h.status'⟩

theorem Live.withFrames {e e' : Engine} (h : e.Live e') {frames frames' : Stack Frame}
    (hframes : List.Forall₂ Frame.Alike frames frames') :
    { e with frames }.Live { e' with frames := frames' } :=
  ⟨⟨h.crypto, h.table, h.container, h.service, h.work, h.reason, hframes⟩, h.status, h.status'⟩

theorem Live.withTable {e e' : Engine} (h : e.Live e') (table : Option ScriptTable) :
    { e with table }.Live { e' with table } :=
  ⟨⟨h.crypto, rfl, h.container, h.service, h.work, h.reason, h.frames⟩, h.status, h.status'⟩

theorem Live.load {e e' : Engine} (h : e.Live e') (script : Script) (pushOnly : Bool) :
    (e.load script pushOnly).Live (e'.load script pushOnly) :=
  ⟨⟨h.crypto, h.table, h.container, h.service, h.work, h.reason,
    .cons ⟨rfl, rfl, rfl, rfl⟩ h.frames⟩, h.status, h.status'⟩

end Engine

namespace Control

open Engine

variable {α β : Type}

/-- The results are of the same sort, with alike engines, related values and the same fault. -/
inductive Twins (V : α → α → Prop) :
    EStateM.Result Fault Engine α → EStateM.Result Fault Engine α → Prop where
  | ok {a a' : α} {e e' : Engine} (hv : V a a') (h : e.Live e') : Twins V (.ok a e) (.ok a' e')
  | error {fault : Fault} {e e' : Engine} (h : e.Live e') : Twins V (.error fault e) (.error fault e')

/-- From alike engines the computations come out alike. -/
def Respects (V : α → α → Prop) (c c' : Control α) : Prop :=
  ∀ ⦃e e' : Engine⦄, e.Live e' → Twins V (c e) (c' e')

/-! ### Composition -/

theorem respects_pure {V : α → α → Prop} {a a' : α} (hv : V a a') :
    Respects V (pure a) (pure a') := fun _ _ h => .ok hv h

theorem respects_throw {V : α → α → Prop} (fault : Fault) :
    Respects V (throw fault) (throw fault) := fun _ _ h => .error h

theorem respects_get : Respects Live get get := fun _ _ h => .ok h h

theorem respects_modify {f f' : Engine → Engine} (hf : ∀ e e', e.Live e' → (f e).Live (f' e')) :
    Respects Eq (modify f : Control Unit) (modify f') := fun e e' h => .ok rfl (hf e e' h)

theorem respects_set {e e' : Engine} (h : e.Live e') :
    Respects Eq (set e : Control Unit) (set e') := fun _ _ _ => .ok rfl h

/-- One computation after another. The results may be related in any way that holds of two equal
faults. -/
theorem Respects.bind_result {V : α → α → Prop} {m m' : Control α} {f f' : α → Control β}
    {P : EStateM.Result Fault Engine β → EStateM.Result Fault Engine β → Prop}
    (hm : Respects V m m')
    (herror : ∀ fault e e', e.Live e' → P (.error fault e) (.error fault e'))
    (hf : ∀ a a' e e', V a a' → e.Live e' → P (f a e) (f' a' e')) {e e' : Engine} (h : e.Live e') :
    P ((m >>= f) e) ((m' >>= f') e') := by
  have htwins := hm h
  rw [run_bind, run_bind]
  generalize m e = r at htwins ⊢
  generalize m' e' = r' at htwins ⊢
  cases htwins with
  | ok hv h => exact hf _ _ _ _ hv h
  | error h => exact herror _ _ _ h

theorem Respects.bind {V : α → α → Prop} {W : β → β → Prop} {m m' : Control α}
    {f f' : α → Control β} (hm : Respects V m m') (hf : ∀ a a', V a a' → Respects W (f a) (f' a')) :
    Respects W (m >>= f) (m' >>= f') := fun _ _ h =>
  hm.bind_result (fun _ _ _ h => .error h) (fun a a' _ _ hv h => hf a a' hv h) h

/-- The workspaces are equal, so an operation on them comes out equal. -/
theorem respects_onWork (op : Operation α) : Respects Eq (onWork op) (onWork op) := by
  intro e e' h
  unfold onWork
  simp only [h.work]
  cases op e.work with
  | ok a work => exact .ok rfl (h.withWork work)
  | error fault work => exact .error (h.withWork work)

/-! ### The parts of a step -/

theorem respects_current : Respects Frame.Alike current current := by
  intro e e' h
  unfold current Engine.currentFrame
  rw [run_bind, run_bind, run_get, run_get]
  rcases h.frames_cases with ⟨hf, hf'⟩ | ⟨frame, rest, frame', rest', hf, hf', hframe, -⟩
  · simp only [hf, hf']
    exact .error h
  · simp only [hf, hf']
    exact .ok hframe h

/-- Alike frames read the same, and stay alike. -/
theorem respects_onFrame (reader : Reader α) : Respects Eq (onFrame reader) (onFrame reader) := by
  intro e e' h
  rcases h.frames_cases with ⟨hf, hf'⟩ | ⟨frame, rest, frame', rest', hf, hf', hframe, hrest⟩
  · unfold onFrame
    simp only [hf, hf']
    exact .error h
  · rw [onFrame_eq hf, onFrame_eq hf', hframe.script, hframe.cursor]
    cases reader.runAt frame.script frame.cursor with
    | ok a next =>
      exact .ok rfl (h.withFrames (.cons ⟨rfl, rfl, hframe.pushOnly, hframe.hash?⟩ hrest))
    | error cause next =>
      exact .error (h.withFrames (.cons ⟨rfl, rfl, hframe.pushOnly, hframe.hash?⟩ hrest))

theorem respects_verifier : Respects Eq verifier verifier := by
  refine respects_get.bind fun e e' h => respects_pure ?_
  rw [h.crypto, h.container]

theorem respects_moveTo (target : Nat) : Respects Eq (moveTo target) (moveTo target) := by
  refine respects_modify fun e e' h => ?_
  rcases h.frames_cases with ⟨hf, hf'⟩ | ⟨frame, rest, frame', rest', hf, hf', hframe, hrest⟩
  · simpa only [hf, hf'] using h
  · simp only [hf, hf']
    exact h.withFrames (.cons ⟨hframe.script, rfl, hframe.pushOnly, hframe.hash?⟩ hrest)

theorem respects_enter (target : Nat) : Respects Eq (enter target) (enter target) := by
  refine respects_modify fun e e' h => ?_
  rcases h.frames_cases with ⟨hf, hf'⟩ | ⟨frame, rest, frame', rest', hf, hf', hframe, hrest⟩
  · simpa only [hf, hf'] using h
  · simp only [hf, hf']
    refine h.withFrames (.cons ⟨hframe.script, rfl, hframe.pushOnly, hframe.hash?⟩ ?_)
    exact .cons hframe hrest

theorem respects_jumpTarget (offset : Int) : Respects Eq (jumpTarget offset) (jumpTarget offset) := by
  refine respects_current.bind fun frame frame' h => ?_
  simp only [h.cursor, h.script]
  split
  · exact fun _ _ h => .error h
  · exact respects_pure rfl

theorem respects_jump (kind : Jump) (offset : Int) :
    Respects Eq (jump kind offset) (jump kind offset) := by
  refine (respects_jumpTarget offset).bind fun target _ htarget => ?_
  subst htarget
  have hmove : ∀ b : Bool, Respects Eq (if b then moveTo target else pure ())
      (if b then moveTo target else pure ()) := by
    intro b
    cases b with
    | true => exact respects_moveTo target
    | false => exact respects_pure rfl
  cases kind with
  | always => exact respects_moveTo target
  | ifTrue => exact (respects_onWork _).bind fun b _ hb => hb ▸ hmove b
  | ifFalse => exact (respects_onWork _).bind fun b _ hb => hb ▸ hmove (!b)
  | call => exact respects_enter target

theorem respects_findScript (hash : ScriptHash) : Respects Eq (findScript hash) (findScript hash) := by
  intro e e' h
  cases htable : e.table with
  | none =>
    rw [findScript_of_none htable, findScript_of_none (h.table.trans htable)]
    exact .error h
  | some table =>
    rw [findScript_eq htable, findScript_eq (h.table.trans htable)]
    cases table.get hash with
    | mk found table' =>
      cases found with
      | none => exact .error (h.withTable _)
      | some script => exact .ok rfl (h.withTable _)

theorem respects_invoke (kind : Invocation) (hash : ScriptHash) :
    Respects Eq (invoke kind hash) (invoke kind hash) := by
  refine (respects_findScript hash).bind fun script _ hscript => ?_
  subst hscript
  refine respects_modify fun e e' h => ?_
  cases kind with
  | nested => exact h.load script false
  | tail =>
    have hrest : List.Forall₂ Frame.Alike e.frames.tail e'.frames.tail := by
      simpa using List.forall₂_drop 1 h.frames
    exact (h.withFrames hrest).load script false

/-! ### Host calls -/

theorem respects_pushHash (depth : Nat) (missing : Fault) :
    Respects Eq (pushHash depth missing) (pushHash depth missing) := by
  refine respects_get.bind fun e e' h => ?_
  have hlookup := alike_getElem? h.frames depth
  generalize e.frames[depth]? = asked at hlookup ⊢
  generalize e'.frames[depth]? = asked' at hlookup ⊢
  cases hlookup with
  | none => exact respects_throw _
  | some hframe =>
    simp only [h.crypto, hframe.hash_eq]
    refine (respects_set ?_).bind fun _ _ _ => respects_onWork _
    have hset := alike_set h.frames depth (hframe.remember e.crypto)
    simpa only [h.crypto] using h.withFrames hset

theorem respects_act (action : HostAction) : Respects Eq (act action) (act action) := by
  cases action with
  | push literal =>
    refine respects_modify fun e e' h => ?_
    have hpush := h.withWork (e.push literal).work
    unfold Engine.push
    rw [h.work]
    exact hpush
  | pop => exact (respects_onWork _).bind fun _ _ _ => respects_pure rfl
  | load script pushOnly => exact respects_modify fun e e' h => h.load script pushOnly
  | loadSource source =>
    simp only [act]
    cases Assembly.assemble source with
    | ok script => exact respects_modify fun e e' h => h.load script false
    | error cause => exact respects_throw _
  | breakAt offset =>
    refine respects_get.bind fun e e' h => ?_
    unfold Engine.addBreakpoint
    rcases h.frames_cases with ⟨hf, hf'⟩ | ⟨frame, rest, frame', rest', hf, hf', hframe, hrest⟩
    · simp only [hf, hf']
      exact fun _ _ h => .error h
    · simp only [hf, hf', ofExcept, pure_bind]
      refine respects_set ?_
      exact ⟨⟨h.crypto, h.table, h.container, h.service, h.work, h.reason, .cons hframe hrest⟩,
        h.status, h.status'⟩
  | register name actions =>
    refine respects_modify fun e e' h => ?_
    have hservice : (e'.register name actions).service = (e.register name actions).service := by
      simp only [Engine.register, h.service]
    exact ⟨⟨h.crypto, h.table, h.container, hservice, h.work, h.reason, h.frames⟩, h.status,
      h.status'⟩
  | dispose => exact respects_modify fun e e' h => h.withFrames .nil
  | fail fault => exact respects_throw fault

theorem respects_actions (actions : List HostAction) :
    Respects Eq (actions.forM act) (actions.forM act) := by
  induction actions with
  | nil => exact respects_pure rfl
  | cons action rest ih => exact (respects_act action).bind fun _ _ _ => ih

theorem respects_handle (handler : Handler) : Respects Eq (handle handler) (handle handler) := by
  cases handler with
  | scriptContainer =>
    refine respects_get.bind fun e e' h => ?_
    rw [h.container]
    cases e.container with
    | none => exact respects_throw _
    | some container => exact respects_onWork _
  | executingHash => exact respects_pushHash 0 _
  | callingHash => exact respects_pushHash 1 _
  | entryHash =>
    refine respects_get.bind fun e e' h => ?_
    rw [← h.frames.length_eq]
    exact respects_pushHash _ _
  | actions actions => exact respects_actions actions

theorem respects_call (name : Bytes) : Respects Eq (call name) (call name) := by
  unfold call
  simp only
  split
  · exact fun _ _ h => .error h
  refine respects_get.bind fun e e' h => ?_
  rw [h.service]
  cases e.service.find? (Text.Utf8.decodeLossy name) with
  | none => exact respects_throw _
  | some handler => exact respects_handle handler

/-! ### Steps -/

theorem respects_fetch : Respects Eq fetch fetch := by
  refine respects_current.bind fun frame frame' hframe => ?_
  refine (respects_onFrame Reader.byte).bind fun byte _ hbyte => ?_
  subst hbyte
  rw [hframe.pushOnly, hframe.cursor]
  split
  · exact fun _ _ h => .error h
  · exact respects_onFrame _

/-- An instruction other than a return. -/
theorem respects_perform {found : Instruction} (hret : found ≠ .ret) :
    Respects Eq (perform found) (perform found) := by
  cases found with
  | pushBytes data => exact respects_onWork (Operation.pushBytes data)
  | pushData width data => exact respects_onWork (Operation.pushBytes data)
  | jump kind offset => exact respects_jump kind offset
  | invoke kind hash => exact respects_invoke kind hash
  | syscall name => exact respects_call name
  | ret => exact absurd rfl hret
  | plain op => exact respects_verifier.bind fun v _ hv => hv ▸ respects_onWork _

/-- Both engines have left their last frame. -/
def Halts (r r' : EStateM.Result Fault Engine Unit) : Prop :=
  ∃ e e', r = .ok () e ∧ r' = .ok () e' ∧ e.Alike e' ∧ e.frames = [] ∧
    e.status = .halted ∧ e'.status = .halted

/-- The results leave both engines in their runs, or both at the end. -/
def ComesOut (r r' : EStateM.Result Fault Engine Unit) : Prop := Twins Eq r r' ∨ Halts r r'

/-- Leaving the last frame ends the run, in both engines or in none. -/
theorem comesOut_leave {e e' : Engine} (h : e.Live e') : ComesOut (leave e) (leave e') := by
  rcases h.frames_cases with ⟨hf, hf'⟩ | ⟨frame, rest, frame', rest', hf, hf', hframe, hrest⟩
  · left
    unfold leave
    simp only [run_modify, hf, hf']
    exact .ok rfl h
  · rw [leave_eq hf, leave_eq hf']
    cases hrest with
    | nil => exact .inr ⟨_, _, rfl, rfl,
        ⟨h.crypto, h.table, h.container, h.service, h.work, h.reason, .nil⟩, rfl, rfl, rfl⟩
    | cons hnext hrest => exact .inl (.ok rfl (h.withFrames (.cons hnext hrest)))

theorem comesOut_advance {e e' : Engine} (h : e.Live e') :
    ComesOut (advance e) (advance e') := by
  have herror : ∀ fault (e e' : Engine), e.Live e' →
      ComesOut (.error fault e) (.error fault e') := fun _ _ _ h => .inl (.error h)
  refine respects_current.bind_result herror (fun frame frame' e e' hframe h => ?_) h
  have hend : frame'.atEnd = frame.atEnd := by
    rw [Frame.atEnd, Frame.atEnd, hframe.script, hframe.cursor]
  rw [hend]
  split
  · exact comesOut_leave h
  refine respects_fetch.bind_result herror (fun found _ e e' hfound h => ?_) h
  subst hfound
  by_cases hret : found = .ret
  · subst hret
    exact comesOut_leave h
  · exact .inl (respects_perform hret h)

end Control

namespace Engine

variable {e e' : Engine}

/-- A pause does not end a run. -/
theorem Live.pause (h : e.Live e') (b b' : Bool) :
    (if b then { e with status := .paused } else e).Agrees
      (if b' then { e' with status := .paused } else e') := by
  have hstatus := h.status
  have hstatus' := h.status'
  cases b <;> cases b'
  · exact h.agrees
  · exact ⟨h.toAlike.withStatus _ _, .inr ⟨hstatus, rfl⟩⟩
  · exact ⟨h.toAlike.withStatus _ _, .inr ⟨rfl, hstatus'⟩⟩
  · exact ⟨h.toAlike.withStatus _ _, .inl rfl⟩

theorem atBreakpoint_of_nil (h : e.frames = []) : e.atBreakpoint = false := by
  unfold atBreakpoint
  rw [h]

theorem Live.step (h : e.Live e') : e.step.Agrees e'.step := by
  rcases h.frames_cases with ⟨hf, hf'⟩ | ⟨frame, rest, frame', rest', hf, hf', -, -⟩
  · rw [step_of_nil h.status hf, step_of_nil h.status' hf']
    exact ⟨h.toAlike.withStatus _ _, .inl rfl⟩
  rw [step_of_cons h.status hf, step_of_cons h.status' hf']
  rcases Control.comesOut_advance h with htwins | ⟨s, s', hs, hs', halike, hnil, hhalt, hhalt'⟩
  · generalize Control.advance e = r at htwins ⊢
    generalize Control.advance e' = r' at htwins ⊢
    cases htwins with
    | ok _ h => exact h.pause _ _
    | error h => exact ⟨h.toAlike.withFault _, .inl rfl⟩
  · have hnil' : s'.frames = [] := List.forall₂_nil_left_iff.mp (hnil ▸ halike.frames)
    rw [hs, hs']
    simp only [atBreakpoint_of_nil hnil, atBreakpoint_of_nil hnil', Bool.false_eq_true, if_false]
    exact ⟨halike, .inl (hhalt'.trans hhalt.symm)⟩

/-- **A step takes alike engines to alike engines.** -/
theorem Agrees.step (h : e.Agrees e') : e.step.Agrees e'.step := by
  rcases h.status with hstatus | ⟨hstatus, hstatus'⟩
  · by_cases hterminal : e.status.isTerminal = true
    · rw [step_of_terminal hterminal, step_of_terminal (hstatus ▸ hterminal)]
      exact h
    · have hlive : e.Live e' := ⟨h.toAlike, by simpa using hterminal, by simpa [hstatus] using hterminal⟩
      exact hlive.step
  · exact Live.step ⟨h.toAlike, hstatus, hstatus'⟩

end Engine

end StackScript
