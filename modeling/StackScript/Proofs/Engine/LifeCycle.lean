import StackScript.Proofs.Engine.Stepping

/-!
# The life of an engine

The status of an engine is written in several places: a return from the last frame halts it, a fault
stops it, a breakpoint pauses it, and in the middle of all this a host call may load scripts or drop
every frame. The fault that stopped it is written in one place only, and nothing takes it back. That
the two never come apart is not seen from the type, and holds because no instruction writes the
fault (`Control.keepsReason_advance`) and because a run never goes on from a status that is final.
Of an engine that can go on, a step makes one that can go on, or one that has halted without frames,
or one that has stopped with the fault of its instruction (`Engine.step_cases`). An engine that has
halted or stopped with a fault does so for good, whatever the host does with it.

Main statement: `Engine.life_cycle`.
-/

namespace StackScript

/-! ### What no instruction writes -/

namespace Control

variable {α β : Type}

/-- The computation leaves the fault that stopped the run as it is. -/
def KeepsReason (c : Control α) : Prop :=
  ∀ e, Outcome (fun _ last => last.reason = e.reason) (fun _ last => last.reason = e.reason) (c e)

theorem keepsReason_pure (a : α) : KeepsReason (pure a) := fun _ => rfl

theorem keepsReason_throw (fault : Fault) : KeepsReason (throw fault : Control α) := fun _ => rfl

theorem KeepsReason.bind {m : Control α} {f : α → Control β} (hm : KeepsReason m)
    (hf : ∀ a, KeepsReason (f a)) : KeepsReason (m >>= f) := fun e =>
  (hm e).bind fun a _ hkept =>
    (hf a _).mono (fun _ _ h => h.trans hkept) fun _ _ h => h.trans hkept

theorem keepsReason_get_bind {f : Engine → Control β} (hf : ∀ e, KeepsReason (f e)) :
    KeepsReason (get >>= f) := fun e => hf e e

theorem keepsReason_modify {f : Engine → Engine} (hf : ∀ e, (f e).reason = e.reason) :
    KeepsReason (modify f : Control Unit) := hf

theorem keepsReason_ite {p : Prop} [Decidable p] {m m' : Control α} (hm : KeepsReason m)
    (hm' : KeepsReason m') : KeepsReason (if p then m else m') := by
  split
  · exact hm
  · exact hm'

theorem keepsReason_guard {p : Prop} [Decidable p] (fault : Fault) {m : Control α}
    (hm : KeepsReason m) :
    KeepsReason (if p then (throw fault : Control Unit) >>= fun _ => m else m) :=
  keepsReason_ite ((keepsReason_throw fault).bind fun _ => hm) hm

theorem keepsReason_ofExcept (result : Except Fault α) : KeepsReason (ofExcept result) := by
  cases result with
  | ok a => exact keepsReason_pure a
  | error fault => exact keepsReason_throw fault

theorem keepsReason_onWork (op : Operation α) : KeepsReason (onWork op) := by
  intro e
  unfold onWork
  cases hrun : op e.work with
  | ok a work => simp [hrun, Outcome]
  | error fault work => simp [hrun, Outcome]

theorem keepsReason_current : KeepsReason current :=
  keepsReason_get_bind fun _ => keepsReason_ofExcept _

theorem keepsReason_onFrame (reader : Reader α) : KeepsReason (onFrame reader) := by
  intro e
  cases hframes : e.frames with
  | nil => simp [onFrame, hframes, Outcome]
  | cons frame rest =>
    rw [onFrame_eq hframes]
    cases reader.runAt frame.script frame.cursor with
    | ok a next => rfl
    | error cause next => rfl

theorem keepsReason_leave : KeepsReason leave := by
  apply keepsReason_modify
  intro e
  split <;> rfl

theorem keepsReason_moveTo (target : Nat) : KeepsReason (moveTo target) := by
  apply keepsReason_modify
  intro e
  split <;> rfl

theorem keepsReason_enter (target : Nat) : KeepsReason (enter target) := by
  apply keepsReason_modify
  intro e
  split <;> rfl

theorem keepsReason_jump (kind : Jump) (offset : Int) : KeepsReason (jump kind offset) := by
  have htarget : KeepsReason (jumpTarget offset) :=
    keepsReason_current.bind fun _ => keepsReason_guard _ (keepsReason_pure _)
  have hpop := keepsReason_onWork Operation.popBool
  apply htarget.bind
  intro target
  have hmove := keepsReason_moveTo target
  cases kind with
  | always => exact hmove
  | ifTrue => exact hpop.bind fun _ => keepsReason_ite hmove (keepsReason_pure ())
  | ifFalse => exact hpop.bind fun _ => keepsReason_ite hmove (keepsReason_pure ())
  | call => exact keepsReason_enter target

theorem keepsReason_findScript (hash : ScriptHash) : KeepsReason (findScript hash) := by
  intro e
  cases htable : e.table with
  | none =>
    rw [findScript_of_none htable]
    rfl
  | some table =>
    rw [findScript_eq htable]
    cases table.get hash with
    | mk found table' =>
      cases found with
      | none => rfl
      | some script => rfl

theorem keepsReason_invoke (kind : Invocation) (hash : ScriptHash) :
    KeepsReason (invoke kind hash) := by
  apply (keepsReason_findScript hash).bind
  intro script
  apply keepsReason_modify
  intro e
  cases kind <;> rfl

/-! #### Host calls -/

theorem keepsReason_pushHash (depth : Nat) (missing : Fault) :
    KeepsReason (pushHash depth missing) := by
  intro e
  rw [pushHash_eq]
  cases e.frames[depth]? with
  | none => rfl
  | some frame => rfl

theorem keepsReason_act (action : HostAction) : KeepsReason (act action) := by
  cases action with
  | push literal => exact keepsReason_modify fun _ => rfl
  | pop => exact (keepsReason_onWork Operation.pop).bind fun _ => keepsReason_pure ()
  | load script pushOnly => exact keepsReason_modify fun _ => rfl
  | loadSource source =>
    simp only [act]
    cases Assembly.assemble source with
    | ok script => exact keepsReason_modify fun _ => rfl
    | error cause => exact keepsReason_throw _
  | breakAt offset =>
    intro e
    rw [breakAt_eq]
    cases e.frames with
    | nil => rfl
    | cons frame rest => rfl
  | register name actions => exact keepsReason_modify fun _ => rfl
  | dispose => exact keepsReason_modify fun _ => rfl
  | fail fault => exact keepsReason_throw fault

theorem keepsReason_handle (handler : Handler) : KeepsReason (handle handler) := by
  cases handler with
  | scriptContainer =>
    apply keepsReason_get_bind
    intro e
    cases e.container with
    | some container => exact keepsReason_onWork _
    | none => exact keepsReason_throw _
  | executingHash => exact keepsReason_pushHash _ _
  | callingHash => exact keepsReason_pushHash _ _
  | entryHash => exact keepsReason_get_bind fun _ => keepsReason_pushHash _ _
  | actions actions =>
    simp only [handle]
    induction actions with
    | nil => exact keepsReason_pure ()
    | cons action rest ih => exact (keepsReason_act action).bind fun _ => ih

theorem keepsReason_call (name : Bytes) : KeepsReason (call name) := by
  apply keepsReason_guard
  apply keepsReason_get_bind
  intro e
  cases e.service.find? (Text.Utf8.decodeLossy name) with
  | some handler => exact keepsReason_handle handler
  | none => exact keepsReason_throw _

/-! #### Instructions -/

theorem keepsReason_perform (found : Instruction) : KeepsReason (perform found) := by
  cases found with
  | pushBytes data => exact keepsReason_onWork (Operation.pushBytes data)
  | pushData width data => exact keepsReason_onWork (Operation.pushBytes data)
  | jump kind offset => exact keepsReason_jump kind offset
  | invoke kind hash => exact keepsReason_invoke kind hash
  | syscall name => exact keepsReason_call name
  | ret => exact keepsReason_leave
  | plain op =>
    have hverifier : KeepsReason verifier := keepsReason_get_bind fun _ => keepsReason_pure _
    exact hverifier.bind fun _ => keepsReason_onWork _

/-- **No instruction writes the fault that stopped the run**, whatever the host calls do. -/
theorem keepsReason_advance : KeepsReason advance := by
  apply keepsReason_current.bind
  intro frame
  have hfetch : KeepsReason fetch := keepsReason_current.bind fun _ =>
    (keepsReason_onFrame _).bind fun _ => keepsReason_guard _ (keepsReason_onFrame _)
  exact keepsReason_ite keepsReason_leave (hfetch.bind keepsReason_perform)

end Control

open Control

namespace Engine

variable {e now last : Engine}

/-! ### Steps -/

/-- The engine can go on, and no fault is kept. -/
structure Going (e : Engine) : Prop where
  status : e.status.isTerminal = false
  reason : e.reason = none

/-- The engine has halted, and no fault is kept. -/
structure Halted (e : Engine) : Prop where
  status : e.status = .halted
  reason : e.reason = none

/-- The engine can go on, and the next instruction of its current frame fails. -/
structure Fails (e : Engine) (fault : Fault) : Prop where
  live : e.status.isTerminal = false
  frames : e.frames ≠ []
  advance : ∃ left, advance e = .error fault left

theorem FaultedWith.isTerminal {fault : Fault} (h : e.FaultedWith fault) :
    e.status.isTerminal = true := by
  rw [h.1]
  rfl

theorem Halted.isTerminal (h : e.Halted) : e.status.isTerminal = true := by
  rw [h.status]
  rfl

theorem Fails.step_faultedWith {fault : Fault} (h : e.Fails fault) : e.step.FaultedWith fault := by
  obtain ⟨frame, rest, hframes⟩ := List.exists_cons_of_ne_nil h.frames
  obtain ⟨left, hadvance⟩ := h.advance
  rw [step_of_advance_error h.live hframes hadvance]
  exact ⟨rfl, rfl⟩

/-- An instruction that succeeds does not end the run, unless it leaves the last frame. -/
theorem advance_ok_cases (h : e.Going) (hadvance : advance e = .ok () last) :
    last.Going ∨ last.Halted ∧ last.frames = [] := by
  have hreason : last.reason = none := by
    have hkept := keepsReason_advance e
    rw [hadvance] at hkept
    exact Eq.trans hkept h.reason
  -- An engine is like itself, and like engines come out alike.
  have hself : e.Live e := ⟨(Agrees.refl e).toAlike, h.status, h.status⟩
  rcases comesOut_advance hself with htwins | ⟨left, _, hleft, -, -, hnil, hhalted, -⟩
  · rw [hadvance] at htwins
    cases htwins with
    | ok _ hlast => exact .inl ⟨hlast.status, hreason⟩
  · obtain rfl : last = left := by
      rw [hadvance] at hleft
      cases hleft
      rfl
    exact .inr ⟨⟨hhalted, hreason⟩, hnil⟩

/-- What a step makes of an engine that can go on. -/
theorem step_cases (h : e.Going) :
    e.step.Going ∨ (e.step.Halted ∧ e.step.frames = []) ∨ ∃ fault, e.Fails fault := by
  cases hframes : e.frames with
  | nil =>
    rw [step_of_nil h.status hframes]
    exact .inr (.inl ⟨⟨rfl, h.reason⟩, hframes⟩)
  | cons frame rest =>
    rw [step_of_cons h.status hframes]
    cases hadvance : advance e with
    | error fault left =>
      have hne : e.frames ≠ [] := by simp [hframes]
      exact .inr (.inr ⟨fault, h.status, hne, left, hadvance⟩)
    | ok value left =>
      rcases advance_ok_cases h hadvance with hleft | ⟨hhalted, hnil⟩
      · left
        simp only
        split
        · exact ⟨rfl, hleft.reason⟩
        · exact hleft
      · -- Without frames there is no breakpoint to pause at.
        simp only [atBreakpoint_of_nil hnil, Bool.false_eq_true, if_false]
        exact .inr (.inl ⟨hhalted, hnil⟩)

/-- What any number of steps makes of it. -/
theorem steps_cases (h : e.Going) (n : Nat) :
    (Engine.step^[n] e).Going ∨
      ((Engine.step^[n] e).Halted ∧ (Engine.step^[n] e).frames = []) ∨
      ∃ m fault, (Engine.step^[m] e).Fails fault ∧
        Engine.step^[n] e = (Engine.step^[m] e).step := by
  induction n with
  | zero => exact .inl h
  | succ n ih =>
    rw [Function.iterate_succ_apply']
    rcases ih with hgoing | ⟨hhalted, hnil⟩ | ⟨m, fault, hfails, hsame⟩
    · rcases step_cases hgoing with h | h | ⟨fault, hfails⟩
      · exact .inl h
      · exact .inr (.inl h)
      · exact .inr (.inr ⟨n, fault, hfails, rfl⟩)
    · rw [step_of_terminal hhalted.isTerminal]
      exact .inr (.inl ⟨hhalted, hnil⟩)
    · refine .inr (.inr ⟨m, fault, hfails, ?_⟩)
      rw [hsame, step_of_terminal hfails.step_faultedWith.isTerminal]

/-! ### Calls of a host -/

/-- What a host does with an engine. It may edit the evaluation stack at will, and exchange what the
host calls do. -/
inductive HostCall where
  | debug (call : DebugCall)
  | stepOver (fuel : Nat)
  | stepOut (fuel : Nat)
  | execute (fuel : Nat)
  | load (script : Script) (pushOnly : Bool)
  | dispose
  | edit (eval : Stack Item) (heap : Heap)
  | serve (service : Service)

namespace HostCall

/-- The engine after a call, if it comes to an end. -/
def run (e : Engine) : HostCall → Option Engine
  | .debug call => some (call.run e)
  | .stepOver fuel => e.stepOver fuel
  | .stepOut fuel => e.stepOut fuel
  | .execute fuel => e.execute fuel
  | .load script pushOnly => some (e.load script pushOnly)
  | .dispose => some e.dispose
  | .edit eval heap => some { e with work := { e.work with eval, heap } }
  | .serve service => some { e with service }

/-- Whether the call is one that lets the engine go on. -/
def goesOn : HostCall → Bool
  | .debug .step | .debug .resume | .stepOver _ | .stepOut _ | .execute _ => true
  | .debug (.addBreakpoint _) | .debug (.removeBreakpoint _) | .load .. | .dispose | .edit .. |
    .serve _ => false

end HostCall

/-- The engines that calls of a host lead to. -/
inductive LeadsTo (e : Engine) : Engine → Prop where
  | start : LeadsTo e e
  | call {now last : Engine} (h : LeadsTo e now) (call : HostCall)
      (hrun : call.run now = some last) : LeadsTo e last

/-- A call that does not let the engine go on touches neither the status nor the fault. -/
theorem end_of_not_goesOn {call : HostCall} (h : call.goesOn = false)
    (hrun : call.run now = some last) : last.status = now.status ∧ last.reason = now.reason := by
  cases call with
  | debug call =>
    obtain rfl : call.run now = last := Option.some.inj hrun
    cases call with
    | step | resume => cases h
    | addBreakpoint offset =>
      simp only [DebugCall.run, addBreakpoint]
      cases now.frames <;> exact ⟨rfl, rfl⟩
    | removeBreakpoint offset =>
      simp only [DebugCall.run, removeBreakpoint]
      cases now.frames <;> exact ⟨rfl, rfl⟩
  | stepOver | stepOut | execute => cases h
  | load | dispose | edit | serve =>
    cases hrun
    exact ⟨rfl, rfl⟩

/-- A call that lets the engine go on is a number of steps, maybe after the end of a pause. -/
theorem exists_steps_of_goesOn {call : HostCall} (h : call.goesOn = true)
    (hrun : call.run now = some last) :
    ∃ n, last = Engine.step^[n] now ∨ last = Engine.step^[n] now.resume := by
  cases call with
  | debug call =>
    obtain rfl : call.run now = last := Option.some.inj hrun
    cases call with
    | step => exact ⟨1, .inl rfl⟩
    | resume => exact ⟨0, .inr rfl⟩
    | addBreakpoint | removeBreakpoint => cases h
  | stepOver fuel =>
    simp only [HostCall.run, stepOver] at hrun
    split at hrun
    · exact ⟨0, .inl (Option.some.inj hrun).symm⟩
    · obtain ⟨n, hlast⟩ := exists_steps_of_runUntil hrun
      exact ⟨n + 1, .inr hlast⟩
  | stepOut fuel | execute fuel =>
    obtain ⟨n, hlast⟩ := exists_steps_of_runUntil hrun
    exact ⟨n, .inr hlast⟩
  | load | dispose | edit | serve => cases h

theorem LeadsTo.steps (h : e.LeadsTo now) (n : Nat) : e.LeadsTo (Engine.step^[n] now) := by
  induction n with
  | zero => exact h
  | succ n ih =>
    rw [Function.iterate_succ_apply']
    exact ih.call (.debug .step) rfl

/-! ### Engines that have ended -/

theorem resume_of_terminal (h : e.status.isTerminal = true) : e.resume = e := by
  unfold resume
  split
  · rename_i hpaused
    rw [hpaused] at h
    cases h
  · rfl

theorem isStopped_of_terminal (h : e.status.isTerminal = true) : e.status.isStopped = true := by
  cases hstatus : e.status with
  | running =>
    rw [hstatus] at h
    cases h
  | _ => rfl

theorem runUntil_of_stop {stop : Engine → Bool} (h : stop e = true) (fuel : Nat) :
    runUntil stop fuel e = some e := by
  cases fuel <;> exact if_pos h

/-- Nothing lets an engine go on that has ended. -/
theorem run_of_terminal (h : e.status.isTerminal = true) {call : HostCall}
    (hcall : call.goesOn = true) : call.run e = some e := by
  have hstopped := isStopped_of_terminal h
  cases call with
  | debug call =>
    cases call with
    | step => exact congrArg some (step_of_terminal h)
    | resume => exact congrArg some (resume_of_terminal h)
    | addBreakpoint | removeBreakpoint => cases hcall
  | stepOver fuel => exact if_pos h
  | stepOut fuel =>
    simp only [HostCall.run, stepOut, resume_of_terminal h]
    apply runUntil_of_stop
    simp [hstopped]
  | execute fuel =>
    simp only [HostCall.run, execute, resume_of_terminal h]
    exact runUntil_of_stop hstopped fuel
  | load | dispose | edit | serve => cases hcall

/-- An engine that has ended stays as it ended. -/
theorem LeadsTo.end_of_terminal (h : e.LeadsTo now) (hend : e.status.isTerminal = true) :
    now.status = e.status ∧ now.reason = e.reason := by
  induction h with
  | start => exact ⟨rfl, rfl⟩
  | @call now last _ call hrun ih =>
    by_cases hgoes : call.goesOn = true
    · rw [run_of_terminal (by rw [ih.1, hend]) hgoes] at hrun
      rw [← Option.some.inj hrun]
      exact ih
    · obtain ⟨hstatus, hreason⟩ := end_of_not_goesOn (Bool.eq_false_iff.mpr hgoes) hrun
      exact ⟨hstatus.trans ih.1, hreason.trans ih.2⟩

theorem LeadsTo.faultedWith {fault : Fault} (h : e.LeadsTo now) (hfault : e.FaultedWith fault) :
    now.FaultedWith fault := by
  obtain ⟨hstatus, hreason⟩ := h.end_of_terminal hfault.isTerminal
  exact ⟨hstatus.trans hfault.1, hreason.trans hfault.2⟩

theorem LeadsTo.halted (h : e.LeadsTo now) (hhalted : e.Halted) : now.Halted := by
  obtain ⟨hstatus, hreason⟩ := h.end_of_terminal hhalted.isTerminal
  exact ⟨hstatus.trans hhalted.status, hreason.trans hhalted.reason⟩

/-! ### Engines that have not ended -/

/-- What a call makes of an engine that can go on. -/
theorem run_cases (h : now.Going) {call : HostCall} (hrun : call.run now = some last) :
    last.Going ∨ (last.Halted ∧ last.frames = []) ∨
      ∃ before fault, now.LeadsTo before ∧ before.Fails fault ∧ last = before.step := by
  by_cases hgoes : call.goesOn = true
  · obtain ⟨start, n, hstart, hgoing, rfl⟩ : ∃ start n, now.LeadsTo start ∧ start.Going ∧
        last = Engine.step^[n] start := by
      obtain ⟨n, hlast | hlast⟩ := exists_steps_of_goesOn hgoes hrun
      · exact ⟨now, n, .start, h, hlast⟩
      · refine ⟨now.resume, n, LeadsTo.start.call (.debug .resume) rfl, ?_, hlast⟩
        rw [resume_of_live h.status]
        exact ⟨rfl, h.reason⟩
    rcases steps_cases hgoing n with h | h | ⟨m, fault, hfails, hsame⟩
    · exact .inl h
    · exact .inr (.inl h)
    · exact .inr (.inr ⟨_, fault, hstart.steps m, hfails, hsame⟩)
  · obtain ⟨hstatus, hreason⟩ := end_of_not_goesOn (Bool.eq_false_iff.mpr hgoes) hrun
    exact .inl ⟨hstatus ▸ h.status, hreason.trans h.reason⟩

theorem LeadsTo.trans (h : e.LeadsTo now) (h' : now.LeadsTo last) : e.LeadsTo last := by
  induction h' with
  | start => exact h
  | call _ call hrun ih => exact ih.call call hrun

/-- **What calls of a host make of an engine that can go on.** It can go on, or has halted, and then
keeps no fault; or an instruction has failed on the way, and it has stopped with that fault. -/
theorem LeadsTo.cases (h : e.LeadsTo now) (hgoing : e.Going) :
    now.Going ∨ now.Halted ∨ ∃ before fault, e.LeadsTo before ∧ before.Fails fault ∧
      before.step.LeadsTo now ∧ now.FaultedWith fault := by
  induction h with
  | start => exact .inl hgoing
  | @call now last hnow call hrun ih =>
    have hlast : now.LeadsTo last := LeadsTo.start.call call hrun
    rcases ih with h | h | ⟨before, fault, hbefore, hfails, hstep, hfault⟩
    · rcases run_cases h hrun with h | ⟨h, -⟩ | ⟨before, fault, hbefore, hfails, rfl⟩
      · exact .inl h
      · exact .inr (.inl h)
      · exact .inr (.inr ⟨before, fault, hnow.trans hbefore, hfails, .start,
          hfails.step_faultedWith⟩)
    · exact .inr (.inl (hlast.halted h))
    · exact .inr (.inr ⟨before, fault, hbefore, hfails, hstep.trans hlast,
        hlast.faultedWith hfault⟩)

/-- The fault and the status never come apart. -/
theorem LeadsTo.isSome_reason_iff (h : e.LeadsTo now) (hgoing : e.Going) :
    now.reason.isSome = true ↔ now.status = .faulted := by
  rcases h.cases hgoing with h | h | ⟨before, fault, -, -, -, hfault⟩
  · simp [h.reason, Status.ne_faulted_of_not_isTerminal h.status]
  · simp [h.reason, h.status]
  · simp [hfault.1, hfault.2]

/-! ### The main statement -/

/-- **The life cycle of an engine.** Let calls of a host, with any host calls registered meanwhile,
lead from an engine that is running and has no fault to another one. That has a fault exactly if its
status is `FAULT`, and it is the fault of an instruction which has failed on the way. A call that
halts it leaves it without frames. Once it has halted or faulted, no further calls change its status
or its fault, and those that would let it go on do nothing at all. -/
theorem life_cycle (e now : Engine) (hstatus : e.status = .running) (hreason : e.reason = none)
    (hnow : e.LeadsTo now) :
    (now.reason.isSome = true ↔ now.status = .faulted) ∧
    (∀ fault, now.reason = some fault ↔
      ∃ before, e.LeadsTo before ∧ before.Fails fault ∧ before.step.LeadsTo now) ∧
    (∀ (call : HostCall) (last : Engine), call.run now = some last → now.status ≠ .halted →
      last.status = .halted → last.frames = []) ∧
    (now.status.isTerminal = true → ∀ later, now.LeadsTo later →
      later.status = now.status ∧ later.reason = now.reason ∧
        ∀ call : HostCall, call.goesOn = true → call.run later = some later) := by
  have hgoing : e.Going := ⟨by rw [hstatus]; rfl, hreason⟩
  refine ⟨hnow.isSome_reason_iff hgoing, fun fault => ⟨fun hfault => ?_, ?_⟩, ?_, ?_⟩
  · rcases hnow.cases hgoing with h | h | ⟨before, cause, hbefore, hfails, hafter, hcause⟩
    · rw [h.reason] at hfault
      cases hfault
    · rw [h.reason] at hfault
      cases hfault
    · obtain rfl : cause = fault := Option.some.inj (hcause.2.symm.trans hfault)
      exact ⟨before, hbefore, hfails, hafter⟩
  · rintro ⟨before, -, hfails, hafter⟩
    exact (hafter.faultedWith hfails.step_faultedWith).2
  · intro call last hrun hbefore hhalted
    rcases hnow.cases hgoing with h | h | ⟨-, fault, -, -, -, hfault⟩
    · rcases run_cases h hrun with h | ⟨-, hnil⟩ | ⟨before, fault, -, hfails, rfl⟩
      · have hlive := h.status
        rw [hhalted] at hlive
        cases hlive
      · exact hnil
      · rw [hfails.step_faultedWith.1] at hhalted
        cases hhalted
    · exact absurd h.status hbefore
    · rw [((LeadsTo.start.call call hrun).faultedWith hfault).1] at hhalted
      cases hhalted
  · intro hended later hlater
    obtain ⟨hsame, hkept⟩ := hlater.end_of_terminal hended
    refine ⟨hsame, hkept, fun call hgoes => run_of_terminal ?_ hgoes⟩
    rw [hsame]
    exact hended

/-- An engine with a host call that drops all frames and loads the one byte of an unknown opcode,
with a breakpoint at it; and with a script that makes this call. -/
def dropping : Engine :=
  let actions : List HostAction := [.dispose, .load (.ofBytes [0xff]) false, .breakAt 0]
  { Engine.new .secp256k1 with service := Service.builtin.register "A" (.actions actions) }.load
    (.ofBytes [0x68, 0x01, 0x41]) false

/-- The host call leads to a pause, and from there to a fault. Another script that is loaded then is
not run. -/
theorem life_cycle_dropping :
    dropping.step.status = .paused ∧ dropping.step.reason = none ∧
      (∃ before, dropping.LeadsTo before ∧ before.Fails (.decode (.invalidOpcode 0xff 0)) ∧
        before.step.LeadsTo (dropping.step.step.load (.ofBytes [0x51]) false)) ∧
      (dropping.step.step.load (.ofBytes [0x51]) false).execute 9 =
        some (dropping.step.step.load (.ofBytes [0x51]) false) := by
  have hnow : dropping.LeadsTo (dropping.step.step.load (.ofBytes [0x51]) false) :=
    (LeadsTo.start.steps 2).call (.load (.ofBytes [0x51]) false) rfl
  have hfault : (dropping.step.step.load (.ofBytes [0x51]) false).FaultedWith
      (.decode (.invalidOpcode 0xff 0)) := by decide +kernel
  obtain ⟨-, hreason, -, hended⟩ := life_cycle dropping _ rfl rfl hnow
  refine ⟨by decide +kernel, by decide +kernel, (hreason _).mp hfault.2, ?_⟩
  exact (hended hfault.isTerminal _ .start).2.2 (.execute 9) rfl

end Engine

end StackScript
