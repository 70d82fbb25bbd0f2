import StackScript.Proofs.Engine.Breakpoints
import Mathlib.Logic.Function.Iterate

/-!
# Sessions with a debugger

A debugger takes single steps, ends pauses, sets and removes breakpoints, and runs the engine until
it stops. Of these only steps move the run: after any calls the engine agrees with one that took as
many steps and nothing else (`Engine.agrees_debug`, `Engine.Session.agrees`). An engine without
breakpoints never pauses, so that a single run of it reaches the end that a session reaches
(`Engine.Unbroken.runUntil`).

Main statement: `Engine.breakpoints_harmless`.
-/

namespace StackScript

namespace Engine

/-! ### Agreement is an equivalence -/

variable {e e' e'' : Engine}

theorem alike_trans {frames frames' frames'' : List Frame}
    (h : List.Forall₂ Frame.Alike frames frames') (h' : List.Forall₂ Frame.Alike frames' frames'') :
    List.Forall₂ Frame.Alike frames frames'' := by
  induction h generalizing frames'' with
  | nil => exact h'
  | cons hframe _ ih =>
    cases h' with
    | cons hframe' hrest' =>
      refine .cons ⟨?_, ?_, ?_, ?_⟩ (ih hrest')
      · exact hframe'.script.trans hframe.script
      · exact hframe'.cursor.trans hframe.cursor
      · exact hframe'.pushOnly.trans hframe.pushOnly
      · exact hframe'.hash?.trans hframe.hash?

theorem Agrees.refl (e : Engine) : e.Agrees e :=
  ⟨⟨rfl, rfl, rfl, rfl, rfl, rfl, List.forall₂_same.mpr fun _ _ => ⟨rfl, rfl, rfl, rfl⟩⟩, .inl rfl⟩

theorem Agrees.symm (h : e.Agrees e') : e'.Agrees e where
  crypto := h.crypto.symm
  table := h.table.symm
  container := h.container.symm
  service := h.service.symm
  work := h.work.symm
  reason := h.reason.symm
  frames := (h.frames.imp fun _ _ hf =>
    (⟨hf.script.symm, hf.cursor.symm, hf.pushOnly.symm, hf.hash?.symm⟩ : Frame.Alike _ _)).flip
  status := h.status.imp Eq.symm And.symm

theorem Agrees.trans (h : e.Agrees e') (h' : e'.Agrees e'') : e.Agrees e'' := by
  refine ⟨⟨h'.crypto.trans h.crypto, h'.table.trans h.table, h'.container.trans h.container,
    h'.service.trans h.service, h'.work.trans h.work, h'.reason.trans h.reason,
    alike_trans h.frames h'.frames⟩, ?_⟩
  rcases h.status with heq | ⟨hlive, hlive'⟩
  · rw [← heq]
    exact h'.status
  · rcases h'.status with heq' | ⟨-, hlive''⟩
    · exact .inr ⟨hlive, heq' ▸ hlive'⟩
    · exact .inr ⟨hlive, hlive''⟩

/-- Engines that agree are at their end in the same way, or both go on. -/
theorem Agrees.status_of_terminal (h : e.Agrees e') (hend : e.status.isTerminal = true) :
    e'.status = e.status := by
  rcases h.status with heq | ⟨hlive, -⟩
  · exact heq
  · rw [hend] at hlive
    cases hlive

theorem Agrees.isTerminal_eq (h : e.Agrees e') : e'.status.isTerminal = e.status.isTerminal := by
  rcases h.status with heq | ⟨hlive, hlive'⟩
  · rw [heq]
  · rw [hlive, hlive']

theorem Agrees.steps (h : e.Agrees e') (n : Nat) :
    (Engine.step^[n] e).Agrees (Engine.step^[n] e') := by
  induction n with
  | zero => exact h
  | succ n ih =>
    rw [Function.iterate_succ_apply', Function.iterate_succ_apply']
    exact ih.step

/-! ### Calls of a debugger -/

/-- What a debugger does between runs. -/
inductive DebugCall where
  | step
  | resume
  | addBreakpoint (offset : Nat)
  | removeBreakpoint (offset : Nat)

namespace DebugCall

/-- Whether the call takes a step. -/
def isStep : DebugCall → Bool
  | .step => true
  | .resume | .addBreakpoint _ | .removeBreakpoint _ => false

/-- The engine after a call. A call that fails leaves it as it is. -/
def run (e : Engine) : DebugCall → Engine
  | .step => e.step
  | .resume => e.resume
  | .addBreakpoint offset =>
      match e.addBreakpoint offset with
      | .ok e => e
      | .error _ => e
  | .removeBreakpoint offset =>
      match e.removeBreakpoint offset with
      | .ok (_, e) => e
      | .error _ => e

end DebugCall

/-- The engine after calls in turn. -/
def debug (e : Engine) (calls : List DebugCall) : Engine := calls.foldl DebugCall.run e

theorem agrees_resume (e : Engine) : e.Agrees e.resume := by
  unfold resume
  split
  · rename_i hpaused
    refine ⟨(Agrees.refl e).toAlike.withStatus _ _, .inr ⟨?_, rfl⟩⟩
    rw [hpaused]
    rfl
  · exact .refl e

/-- Breakpoints can be changed freely. -/
theorem agrees_withBreakpoints (e : Engine) (breakpoints : Breakpoints) :
    e.Agrees { e with breakpoints } :=
  ⟨⟨rfl, rfl, rfl, rfl, rfl, rfl, (Agrees.refl e).frames⟩, .inl rfl⟩

theorem agrees_run_of_not_step (e : Engine) {call : DebugCall} (h : call.isStep = false) :
    e.Agrees (call.run e) := by
  cases call with
  | step => cases h
  | resume => exact agrees_resume e
  | addBreakpoint offset =>
    simp only [DebugCall.run]
    split
    · rename_i heq
      unfold addBreakpoint at heq
      split at heq
      · cases heq
        exact agrees_withBreakpoints e _
      · cases heq
    · exact .refl e
  | removeBreakpoint offset =>
    simp only [DebugCall.run]
    split
    · rename_i heq
      unfold removeBreakpoint at heq
      split at heq
      · cases heq
        exact agrees_withBreakpoints e _
      · cases heq
    · exact .refl e

/-- Of the calls of a debugger only the steps count. -/
theorem agrees_debug (e : Engine) (calls : List DebugCall) :
    (Engine.step^[calls.countP DebugCall.isStep] e).Agrees (e.debug calls) := by
  induction calls generalizing e with
  | nil => exact .refl e
  | cons call rest ih =>
    by_cases hstep : call.isStep = true
    · cases call with
      | step =>
        rw [List.countP_cons_of_pos hstep, Function.iterate_succ_apply]
        exact ih e.step
      | _ => cases hstep
    · rw [List.countP_cons_of_neg hstep]
      have hcall := agrees_run_of_not_step e (Bool.eq_false_iff.mpr hstep)
      exact (hcall.steps _).trans (ih (call.run e))

/-! ### Runs -/

/-- A run ends at the first engine on its way that is to be stopped at, if it may take that many
steps. -/
theorem runUntil_eq_some_iff {stop : Engine → Bool} {fuel : Nat} {last : Engine} :
    runUntil stop fuel e = some last ↔
      ∃ n ≤ fuel, stop (Engine.step^[n] e) = true ∧ (∀ m < n, stop (Engine.step^[m] e) = false) ∧
        last = Engine.step^[n] e := by
  induction fuel generalizing e with
  | zero =>
    rw [runUntil]
    constructor
    · intro h
      split at h
      · rename_i hstop
        exact ⟨0, Nat.le_refl _, hstop, by simp, (Option.some.inj h).symm⟩
      · cases h
    · rintro ⟨n, hn, hstop, -, rfl⟩
      obtain rfl : n = 0 := Nat.le_zero.mp hn
      exact if_pos hstop
  | succ fuel ih =>
    rw [runUntil]
    by_cases hstop : stop e = true
    · rw [if_pos hstop]
      constructor
      · intro h
        exact ⟨0, Nat.zero_le _, hstop, by simp, (Option.some.inj h).symm⟩
      · rintro ⟨n, -, -, hbefore, rfl⟩
        cases n with
        | zero => rfl
        | succ n =>
          have hfirst := hbefore 0 (Nat.succ_pos n)
          rw [Function.iterate_zero, id, hstop] at hfirst
          cases hfirst
    · rw [if_neg hstop, ih]
      rw [Bool.not_eq_true] at hstop
      constructor
      · rintro ⟨n, hn, hend, hbefore, rfl⟩
        refine ⟨n + 1, Nat.succ_le_succ hn, hend, fun m hm => ?_, rfl⟩
        cases m with
        | zero => exact hstop
        | succ m => exact hbefore m (Nat.lt_of_succ_lt_succ hm)
      · rintro ⟨n, hn, hend, hbefore, rfl⟩
        cases n with
        | zero =>
          rw [Function.iterate_zero, id, hstop] at hend
          cases hend
        | succ n =>
          exact ⟨n, Nat.le_of_succ_le_succ hn, hend,
            fun m hm => hbefore (m + 1) (Nat.succ_lt_succ hm), rfl⟩

/-- A run of several steps is a number of steps. -/
theorem exists_steps_of_runUntil {stop : Engine → Bool} {fuel : Nat} {last : Engine}
    (h : runUntil stop fuel e = some last) : ∃ n, last = Engine.step^[n] e := by
  obtain ⟨n, -, -, -, hlast⟩ := runUntil_eq_some_iff.mp h
  exact ⟨n, hlast⟩

/-- The engines that calls of a debugger and runs lead to. -/
inductive Session (e : Engine) : Engine → Prop where
  | start : Session e e
  | call {now : Engine} (h : Session e now) (call : DebugCall) : Session e (call.run now)
  | execute {now last : Engine} {fuel : Nat} (h : Session e now)
      (hrun : now.execute fuel = some last) : Session e last

/-- A session moves an engine by a number of steps. -/
theorem Session.agrees {now : Engine} (h : e.Session now) :
    ∃ n, (Engine.step^[n] e).Agrees now := by
  induction h with
  | start => exact ⟨0, .refl e⟩
  | @call now _ call ih =>
    obtain ⟨n, hn⟩ := ih
    refine ⟨[call].countP DebugCall.isStep + n, ?_⟩
    rw [Function.iterate_add_apply]
    exact (hn.steps _).trans (agrees_debug now [call])
  | @execute now last fuel _ hrun ih =>
    obtain ⟨n, hn⟩ := ih
    obtain ⟨k, rfl⟩ := exists_steps_of_runUntil hrun
    refine ⟨k + n, ?_⟩
    rw [Function.iterate_add_apply]
    exact (hn.trans (agrees_resume now)).steps k

/-! ### Engines without breakpoints -/

/-- No offset is a breakpoint and the engine is not at a pause. -/
structure Unbroken (e : Engine) : Prop where
  service : e.service = .builtin
  clear : ∀ set offset, e.breakpoints.contains set offset = false
  status : e.status ≠ .paused

theorem contains_fresh (breakpoints : Breakpoints) (set offset : Nat) :
    breakpoints.fresh.2.contains set offset = breakpoints.contains set offset := by
  unfold Breakpoints.contains Breakpoints.offsets Breakpoints.fresh
  rw [Array.getD_eq_getD_getElem?, Array.getD_eq_getD_getElem?, Array.getElem?_push]
  split
  · rename_i h
    subst h
    simp
  · rfl

theorem Unbroken.load (h : e.Unbroken) (script : Script) (pushOnly : Bool) :
    (e.load script pushOnly).Unbroken :=
  ⟨h.service, fun set offset => (contains_fresh e.breakpoints set offset).trans (h.clear set offset),
    h.status⟩

theorem Unbroken.atBreakpoint (h : e.Unbroken) : e.atBreakpoint = false := by
  unfold Engine.atBreakpoint
  split
  · exact h.clear _ _
  · rfl

theorem Unbroken.left (h : e.Unbroken) (rest : Stack Frame) :
    { e with frames := rest, status := if rest.isEmpty then .halted else e.status }.Unbroken := by
  refine ⟨h.service, h.clear, ?_⟩
  simp only
  split
  · nofun
  · exact h.status

/-- No instruction sets a breakpoint or pauses. -/
theorem Unbroken.performs {frame : Frame} {rest : Stack Frame} {found : Instruction}
    {result : EStateM.Result Fault Engine Unit} (h : e.Unbroken)
    (hp : Control.Performs e frame rest found result) :
    Outcome (fun _ => Unbroken) (fun _ => Unbroken) result := by
  cases hp with
  | refuse => exact h
  | @nested hash table table' script _ _ =>
    have htable : { e with table := some table' }.Unbroken := ⟨h.service, h.clear, h.status⟩
    exact htable.load script false
  | @tail hash table table' script _ _ =>
    have htable : { e with table := some table', frames := rest }.Unbroken :=
      ⟨h.service, h.clear, h.status⟩
    exact htable.load script false
  | leave => exact h.left rest
  | _ => exact ⟨h.service, h.clear, h.status⟩

theorem Unbroken.advance {frame : Frame} {rest : Stack Frame} (h : e.Unbroken)
    (hframes : e.frames = frame :: rest) :
    Outcome (fun _ => Unbroken) (fun _ => Unbroken) (Control.advance e) := by
  have hadvances := Control.advances hframes
  generalize Control.advance e = result at hadvances ⊢
  cases hadvances with
  | atEnd => exact h.left rest
  | refuse | undecoded => exact ⟨h.service, h.clear, h.status⟩
  | @perform found _ _ next _ _ _ =>
    have hmoved : { e with frames := { frame with cursor := next } :: rest }.Unbroken :=
      ⟨h.service, h.clear, h.status⟩
    exact hmoved.performs (Control.performs hmoved.service rfl found)

theorem Unbroken.step (h : e.Unbroken) : e.step.Unbroken := by
  by_cases hterminal : e.status.isTerminal = true
  · rwa [step_of_terminal hterminal]
  rw [Bool.not_eq_true] at hterminal
  cases hframes : e.frames with
  | nil =>
    rw [step_of_nil hterminal hframes]
    exact ⟨h.service, h.clear, nofun⟩
  | cons frame rest =>
    rw [step_of_cons hterminal hframes]
    have hadvance := h.advance hframes
    generalize Control.advance e = result at hadvance ⊢
    cases result with
    | ok _ last =>
      have hlast : last.Unbroken := hadvance
      simpa only [hlast.atBreakpoint, Bool.false_eq_true, if_false] using hlast
    | error fault last =>
      have hlast : last.Unbroken := hadvance
      exact ⟨hlast.service, hlast.clear, nofun⟩

theorem steps_of_terminal (h : e.status.isTerminal = true) (n : Nat) : Engine.step^[n] e = e :=
  Function.iterate_fixed (step_of_terminal h) n

/-- Without breakpoints only the end stops a run. -/
theorem Unbroken.isStopped_eq (h : e.Unbroken) : e.status.isStopped = e.status.isTerminal := by
  have hpaused := h.status
  cases hstatus : e.status with
  | paused => exact absurd hstatus hpaused
  | _ => rfl

/-- A run without breakpoints that can end does so. -/
theorem Unbroken.runUntil (h : e.Unbroken) {n : Nat}
    (hend : (Engine.step^[n] e).status.isTerminal = true) :
    Engine.runUntil (fun e => e.status.isStopped) n e = some (Engine.step^[n] e) := by
  induction n generalizing e with
  | zero =>
    rw [Function.iterate_zero, id] at hend ⊢
    rw [Engine.runUntil, h.isStopped_eq, if_pos hend]
  | succ n ih =>
    rw [Engine.runUntil, h.isStopped_eq]
    by_cases hterminal : e.status.isTerminal = true
    · rw [if_pos hterminal, steps_of_terminal hterminal]
    · rw [if_neg hterminal, Function.iterate_succ_apply]
      exact ih h.step hend

theorem resume_status_ne_paused (e : Engine) : e.resume.status ≠ .paused := by
  unfold resume
  split
  · nofun
  · assumption

theorem resume_breakpoints (e : Engine) : e.resume.breakpoints = e.breakpoints := by
  unfold resume
  split <;> rfl

/-! ### The main statement -/

/-- **Breakpoints do not influence results.** Let two engines be alike but for breakpoints and for
being at a pause. After any calls of a debugger on either side they agree, if the calls have as many
steps. And if a session on the one comes to an end, however often it pauses, then a single run of
the other comes to the same end, if that one has no breakpoints. -/
theorem breakpoints_harmless (e e' : Engine) (h : e.Agrees e') :
    (∀ calls calls' : List DebugCall,
      calls.countP DebugCall.isStep = calls'.countP DebugCall.isStep →
      (e.debug calls).Agrees (e'.debug calls')) ∧
    (e.service = .builtin → (∀ set offset, e'.breakpoints.contains set offset = false) →
      ∀ last, e.Session last → last.status.isTerminal = true →
        ∃ fuel last', e'.execute fuel = some last' ∧ last.Agrees last' ∧
          last'.status = last.status) := by
  constructor
  · intro calls calls' hsteps
    have hleft := (agrees_debug e calls).symm
    have hright := agrees_debug e' calls'
    rw [← hsteps] at hright
    exact (hleft.trans (h.steps _)).trans hright
  · intro hservice hclear last hsession hend
    obtain ⟨n, hn⟩ := hsession.agrees
    have hresume : e'.resume.Unbroken := by
      have hsame := (agrees_resume e').service.trans (h.service.trans hservice)
      refine ⟨hsame, fun set offset => ?_, resume_status_ne_paused e'⟩
      rw [resume_breakpoints]
      exact hclear set offset
    have hagrees : last.Agrees (Engine.step^[n] e'.resume) :=
      hn.symm.trans ((h.trans (agrees_resume e')).steps n)
    have hstatus : (Engine.step^[n] e'.resume).status = last.status := by
      rcases hagrees.status with heq | ⟨hlive, -⟩
      · exact heq
      · rw [hend] at hlive
        cases hlive
    exact ⟨n, _, hresume.runUntil (hstatus ▸ hend), hagrees, hstatus⟩

/-- An engine with the script `PUSH1 PUSH2 ADD`. -/
def adding : Engine := (Engine.new .secp256k1).load (.ofBytes [0x51, 0x52, 0x93]) false

/-- The same with breakpoints at the second and the third instruction. -/
def addingWithBreakpoints : Engine := { adding with breakpoints := ⟨#[[1, 2]]⟩ }

/-- It takes three runs to the end, and without breakpoints one. -/
theorem breakpoints_harmless_adding :
    ∃ first second third,
      addingWithBreakpoints.execute 9 = some first ∧ first.status = .paused ∧
      first.execute 9 = some second ∧ second.status = .paused ∧
      second.execute 9 = some third ∧ third.status = .halted ∧
      ∃ fuel last, adding.execute fuel = some last ∧ third.Agrees last ∧ last.status = .halted := by
  let first := addingWithBreakpoints.step
  let second := first.resume.step
  let third := second.resume.step.step
  have hfirst : addingWithBreakpoints.execute 9 = some first := rfl
  have hsecond : first.execute 9 = some second := rfl
  have hthird : second.execute 9 = some third := rfl
  have hagrees : addingWithBreakpoints.Agrees adding := (agrees_withBreakpoints adding _).symm
  have hclear : ∀ set offset, adding.breakpoints.contains set offset = false := fun set offset =>
    contains_fresh {} set offset
  have hsession : addingWithBreakpoints.Session third :=
    ((Session.start.execute hfirst).execute hsecond).execute hthird
  refine ⟨first, second, third, hfirst, rfl, hsecond, rfl, hthird, rfl, ?_⟩
  obtain ⟨fuel, last, hrun, hlast, hstatus⟩ :=
    (breakpoints_harmless addingWithBreakpoints adding hagrees).2 rfl hclear third hsession rfl
  exact ⟨fuel, last, hrun, hlast, hstatus⟩

end Engine

end StackScript
