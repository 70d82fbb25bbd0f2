import StackScript.Console.Session
import StackScript.Proofs.Engine.LifeCycle

/-!
# Runs within a budget

A run for a user goes in turns. Each takes one step, and ends a pause at a breakpoint at once. So
after any number of turns the engine agrees with one without breakpoints that took as many steps
(`Session.agrees_turns`), and the run ends with the turn after which that one is at its end, or when
the budget is spent (`Session.spend_eq`). The exit status of a run at its end depends on whether a
fault is kept, and that is so exactly if the engine has faulted
(`Engine.LeadsTo.isSome_reason_iff`). What is shown of the stacks is said by `Console.Shows`: a
title with the number of items, and a line for each item with its depth and its text.

Main statement: `runScript_budgeted`.
-/

namespace StackScript.Console

/-! ### The stacks on show -/

/-- The line of an item: its depth, right-aligned in four columns, and its text. -/
def itemLine (heap : Heap) (depth : Nat) (item : Item) : String :=
  let digits := Text.decimal depth
  String.ofList (List.replicate (4 - digits.length) ' ') ++ digits ++ ": " ++
    item.render .plain heap

/-- The lines show a stack: first the title with the number of items, and then each item by its
depth. -/
structure ShowsStack (title : String) (heap : Heap) (items : Stack Item)
    (lines : List Output) : Prop where
  length : lines.length = items.length + 1
  title : lines[0]? = some (.line s!"{title} ({items.length} items, top first):")
  item : ∀ depth item, items[depth]? = some item →
    lines[depth + 1]? = some (.line (itemLine heap depth item))

/-- The lines show both stacks, the evaluation stack first; nothing is shown of an empty alt
stack. -/
def Shows (work : Workspace) (lines : List Output) : Prop :=
  ∃ eval alt, lines = eval ++ alt ∧ ShowsStack "Evaluation stack" work.heap work.eval eval ∧
    if work.alt = [] then alt = [] else ShowsStack "Alt stack" work.heap work.alt alt

namespace Session

theorem showsStack_stackLines (title : String) (heap : Heap) (items : Stack Item) :
    ShowsStack title heap items (stackLines title heap items) where
  length := by simp [stackLines]
  title := rfl
  item depth item hitem := by
    simp [stackLines, hitem, itemLine, Text.fourColumns, Text.padLeft]

theorem shows_stacksLines (work : Workspace) : Shows work (stacksLines work) := by
  refine ⟨_, _, rfl, showsStack_stackLines _ _ _, ?_⟩
  by_cases halt : work.alt = []
  · simp [halt]
  · simp only [halt, List.isEmpty_iff, if_false]
    exact showsStack_stackLines _ _ _

/-! ### Turns -/

theorem traceNext_engine (session : Session) : session.traceNext.engine = session.engine := by
  unfold traceNext
  split <;> rfl

theorem traceNext_steps (session : Session) : session.traceNext.steps = session.steps := by
  unfold traceNext
  split <;> rfl

theorem logFault_engine (session : Session) (offset : Nat) :
    (session.logFault offset).engine = session.engine := by
  unfold logFault
  split <;> rfl

theorem logFault_steps (session : Session) (offset : Nat) :
    (session.logFault offset).steps = session.steps := by
  unfold logFault
  split <;> rfl

/-- A step is taken and a pause is ended. -/
theorem advance_engine (session : Session) :
    session.advance.engine = session.engine.step.resume := by
  unfold advance Engine.resume
  simp only
  cases hstatus : session.engine.step.status with
  | paused => simp [log, showStacks, hstatus]
  | faulted => simp [logFault_engine]
  | _ => simp

theorem advance_steps (session : Session) : session.advance.steps = session.steps + 1 := by
  unfold advance
  simp only
  cases session.engine.step.status with
  | faulted => rw [logFault_steps]
  | _ => rfl

theorem turn_engine (options : Options) (session : Session) :
    (session.turn options).engine = session.engine.step.resume := by
  unfold turn
  rw [advance_engine]
  split
  · rw [traceNext_engine]
  · rfl

theorem turn_steps (options : Options) (session : Session) :
    (session.turn options).steps = session.steps + 1 := by
  unfold turn
  rw [advance_steps]
  split
  · rw [traceNext_steps]
  · rfl

theorem proceed_of_terminal (options : Options) (remaining : Nat) {session : Session}
    (h : session.engine.status.isTerminal = true) :
    session.proceed options remaining = session := by
  cases remaining with
  | zero => rfl
  | succ remaining => rw [proceed, if_pos h]

/-- As long as the engine is not at its end, a run goes on with its next turn. -/
theorem proceed_add (options : Options) (rest : Nat) {n : Nat} {session : Session}
    (h : ∀ j < n, ((turn options)^[j] session).engine.status.isTerminal = false) :
    session.proceed options (rest + n) = ((turn options)^[n] session).proceed options rest := by
  induction n generalizing session with
  | zero => rfl
  | succ n ih =>
    have hfirst : session.engine.status.isTerminal = false := h 0 (Nat.succ_pos n)
    have hrest := ih fun j hj => h (j + 1) (Nat.succ_lt_succ hj)
    rw [Function.iterate_succ_apply, ← hrest, ← Nat.add_assoc, proceed, hfirst]
    rfl

theorem steps_proceed_le (options : Options) (remaining : Nat) (session : Session) :
    (session.proceed options remaining).steps ≤ session.steps + remaining := by
  induction remaining generalizing session with
  | zero => exact Nat.le_refl _
  | succ remaining ih =>
    rw [proceed]
    split
    · exact Nat.le_add_right _ _
    · have hle := ih (session.turn options)
      rw [turn_steps] at hle
      omega

/-! ### The engine without breakpoints -/

/-- With a frame to set them in, all breakpoints can be set. -/
theorem foldlM_addBreakpoint (offsets : List Nat) {engine : Engine} {frame : Frame}
    {rest : Stack Frame} (hframes : engine.frames = frame :: rest) :
    offsets.foldlM Engine.addBreakpoint engine =
      .ok (engine.debug (offsets.map .addBreakpoint)) := by
  induction offsets generalizing engine with
  | nil => rfl
  | cons offset offsets ih =>
    have hset : engine.addBreakpoint offset =
        .ok (Engine.DebugCall.run engine (.addBreakpoint offset)) := by
      simp only [Engine.DebugCall.run, Engine.addBreakpoint, hframes]
    have hframes' : (Engine.DebugCall.run engine (.addBreakpoint offset)).frames =
        frame :: rest := by
      simp only [Engine.DebugCall.run, Engine.addBreakpoint, hframes]
    rw [List.foldlM_cons, hset]
    exact ih hframes'

/-- A run starts, and breakpoints are all that distinguishes its engine from the one it was made
of. -/
theorem exists_start (options : Options) (script : Script) :
    ∃ first, start options script = .ok first ∧ first.steps = 0 ∧
      (loaded options script).Agrees first.engine := by
  have hset : options.breakpoints.foldlM Engine.addBreakpoint (loaded options script) =
      .ok ((loaded options script).debug (options.breakpoints.map .addBreakpoint)) :=
    foldlM_addBreakpoint options.breakpoints rfl
  have hagrees := Engine.agrees_debug (loaded options script)
    (options.breakpoints.map .addBreakpoint)
  have hcount : (options.breakpoints.map Engine.DebugCall.addBreakpoint).countP
      Engine.DebugCall.isStep = 0 := by
    rw [List.countP_map]
    exact List.countP_eq_zero.mpr fun _ _ hstep => Bool.false_ne_true hstep
  rw [hcount] at hagrees
  rw [start, hset]
  exact ⟨_, rfl, rfl, hagrees⟩

/-- The engine of a run without breakpoints, after a number of steps. -/
def unbroken (options : Options) (script : Script) (n : Nat) : Engine :=
  Engine.step^[n] (loaded options script)

/-- It keeps a fault exactly if it has faulted. -/
theorem isSome_reason_unbroken_iff (options : Options) (script : Script) (n : Nat) :
    (unbroken options script n).reason.isSome = true ↔
      (unbroken options script n).status = .faulted :=
  (Engine.LeadsTo.start.steps n).isSome_reason_iff ⟨rfl, rfl⟩

section Run

variable {options : Options} {script : Script} {first : Session}

/-- **Breakpoints pause a run and change nothing else.** -/
theorem agrees_turns (h : (loaded options script).Agrees first.engine) (n : Nat) :
    (unbroken options script n).Agrees ((turn options)^[n] first).engine := by
  induction n with
  | zero => exact h
  | succ n ih =>
    rw [unbroken, Function.iterate_succ_apply', Function.iterate_succ_apply', turn_engine]
    exact ih.step.trans (Engine.agrees_resume _)

theorem steps_turns (h : first.steps = 0) (n : Nat) : ((turn options)^[n] first).steps = n := by
  induction n with
  | zero => exact h
  | succ n ih => rw [Function.iterate_succ_apply', turn_steps, ih]

/-- A run ends with the turn after which the engine without breakpoints is at its end, and with the
last turn of the budget if that comes first. -/
theorem spend_eq (h : (loaded options script).Agrees first.engine) {n : Nat}
    (hn : n ≤ options.maxSteps)
    (hbefore : ∀ j < n, (unbroken options script j).status.isTerminal = false)
    (hend : (unbroken options script n).status.isTerminal = true ∨ n = options.maxSteps) :
    first.spend options = (turn options)^[n] first := by
  have hgoes : ∀ j < n, ((turn options)^[j] first).engine.status.isTerminal = false :=
    fun j hj => (agrees_turns h j).isTerminal_eq.trans (hbefore j hj)
  rw [spend, ← Nat.sub_add_cancel hn, proceed_add options _ hgoes]
  rcases hend with hend | rfl
  · exact proceed_of_terminal options _ ((agrees_turns h n).isTerminal_eq.trans hend)
  · rw [Nat.sub_self]
    rfl

end Run

end Session

/-! ### The main statement -/

/-- A run of a script from a first session takes that many steps and ends with an exit status: a
message is the last thing that is logged, and the stacks of a workspace are shown behind it. -/
structure Ran (options : Options) (script : Script) (first : Session) (steps exit : Nat)
    (level : Level) (message : String) (work : Workspace) : Prop where
  turns : first.spend options = (Session.turn options)^[steps] first
  steps : (first.spend options).steps = steps
  exit : (runScript options script).exit = exit
  output : ∃ lines, Shows work lines ∧ (runScript options script).output.toList =
    (first.spend options).output.toList ++ .log level message :: lines

open Session

section Ending

variable {options : Options} {script : Script} {first : Session} {n : Nat}
  (hstart : start options script = .ok first) (hsteps : first.steps = 0)
  (hagrees : (loaded options script).Agrees first.engine)
  (hspend : first.spend options = (turn options)^[n] first)

include hstart hsteps hagrees hspend

/-- A run that ends after some turns shows the stacks of the engine without breakpoints. -/
theorem ran_of_conclude {exit : Nat} {level : Level} {message : String}
    (h : (first.spend options).conclude options =
      ((first.spend options).log level message).showStacks.finish exit) :
    Ran options script first n exit level message (unbroken options script n).work := by
  have hwork : (first.spend options).engine.work = (unbroken options script n).work := by
    rw [hspend]
    exact (agrees_turns hagrees n).work
  have hrun : runScript options script = (first.spend options).conclude options := by
    rw [runScript, hstart]
  refine ⟨hspend, by rw [hspend, steps_turns hsteps], ?_, ?_⟩
  · rw [hrun, h]
    rfl
  · refine ⟨_, shows_stacksLines _, ?_⟩
    rw [hrun, h, ← hwork]
    simp [finish, showStacks, Session.log]

/-- At its end, a run exits by the fault that is kept. -/
theorem ran_of_terminal (hend : (unbroken options script n).status.isTerminal = true) :
    match (unbroken options script n).reason with
    | some reason =>
        Ran options script first n 1 .error s!"FAULT after {n} steps: {reason.message}"
          (unbroken options script n).work
    | none =>
        Ran options script first n 0 .info
          s!"{(unbroken options script n).status.name} after {n} steps"
          (unbroken options script n).work := by
  have hlast := agrees_turns hagrees n
  rw [← hspend] at hlast
  have hcount : (first.spend options).steps = n := by rw [hspend, steps_turns hsteps]
  have hconclude : (first.spend options).conclude options = (first.spend options).report := by
    rw [conclude, hlast.isTerminal_eq, if_pos hend]
  rw [report, hlast.reason, hlast.status_of_terminal hend, hcount] at hconclude
  cases hreason : (unbroken options script n).reason with
  | some reason =>
    rw [hreason] at hconclude
    exact ran_of_conclude hstart hsteps hagrees hspend hconclude
  | none =>
    rw [hreason] at hconclude
    exact ran_of_conclude hstart hsteps hagrees hspend hconclude

end Ending

/-- **A run keeps to its budget.** A run starts, whatever the breakpoints. Every turn takes one
step, and there are no more turns than the budget allows. If an engine without breakpoints is at its
end after `k` steps and not before, and `k` is within the budget, then the run takes `k` steps and
its exit status tells whether that engine halted or faulted. If that engine is not at its end within
the budget, the run takes as many steps as the budget allows and exits with status 2. The stacks
shown last are those of that engine. -/
theorem runScript_budgeted (options : Options) (script : Script) :
    ∃ first, start options script = .ok first ∧
    (∀ session : Session, (session.turn options).engine = session.engine.step.resume ∧
      (session.turn options).steps = session.steps + 1) ∧
    (first.spend options).steps ≤ options.maxSteps ∧
    (∀ k ≤ options.maxSteps,
      (∀ j < k, (unbroken options script j).status.isTerminal = false) →
      ((unbroken options script k).status = .halted →
        Ran options script first k 0 .info s!"HALT after {k} steps"
          (unbroken options script k).work) ∧
      ((unbroken options script k).status = .faulted →
        ∃ reason, (unbroken options script k).reason = some reason ∧
          Ran options script first k 1 .error s!"FAULT after {k} steps: {reason.message}"
            (unbroken options script k).work)) ∧
    ((∀ j ≤ options.maxSteps, (unbroken options script j).status.isTerminal = false) →
      Ran options script first options.maxSteps 2 .warn
        s!"Step budget of {options.maxSteps} exhausted"
        (unbroken options script options.maxSteps).work) := by
  obtain ⟨first, hstart, hsteps, hagrees⟩ := exists_start options script
  refine ⟨first, hstart, fun session => ⟨turn_engine options session, turn_steps options session⟩,
    ?_, fun k hk hbefore => ⟨fun hhalted => ?_, fun hfaulted => ?_⟩, fun hnever => ?_⟩
  · have hle := steps_proceed_le options options.maxSteps first
    rwa [hsteps, Nat.zero_add] at hle
  · have hend : (unbroken options script k).status.isTerminal = true := by rw [hhalted]; rfl
    have hspend := spend_eq hagrees hk hbefore (.inl hend)
    have hran := ran_of_terminal hstart hsteps hagrees hspend hend
    have hreason : (unbroken options script k).reason = none := by
      have hiff := isSome_reason_unbroken_iff options script k
      simpa [hhalted] using hiff
    rwa [hreason, hhalted] at hran
  · have hend : (unbroken options script k).status.isTerminal = true := by rw [hfaulted]; rfl
    have hspend := spend_eq hagrees hk hbefore (.inl hend)
    have hran := ran_of_terminal hstart hsteps hagrees hspend hend
    obtain ⟨reason, hreason⟩ :=
      Option.isSome_iff_exists.mp ((isSome_reason_unbroken_iff options script k).mpr hfaulted)
    rw [hreason] at hran
    exact ⟨reason, hreason, hran⟩
  · have hbefore := fun j (hj : j < options.maxSteps) => hnever j (Nat.le_of_lt hj)
    have hspend := spend_eq hagrees (Nat.le_refl _) hbefore (.inr rfl)
    apply ran_of_conclude hstart hsteps hagrees hspend
    have hlast := (agrees_turns hagrees options.maxSteps).isTerminal_eq
    rw [conclude, hspend, hlast, hnever _ (Nat.le_refl _)]
    rfl

/-- Four steps, with breakpoints at the second instruction and at the end of the script. -/
def fourSteps : Options :=
  { input := "addition", breakpoints := [1, 3], maxSteps := 4, trace := true }

/-- `PUSH1 PUSH2 ADD`. -/
def addition : Script := .ofBytes [0x51, 0x52, 0x93]

/-- A jump to itself. -/
def loop : Script := .ofBytes [0x62, 0x00, 0x00]

/-- The addition halts with the last step that is allowed, and pauses before it. The loop spends the
budget. -/
theorem runScript_budgeted_lastStep :
    (unbroken fourSteps addition 4).status = .halted ∧
    (∃ first, Ran fourSteps addition first 4 0 .info "HALT after 4 steps"
      (unbroken fourSteps addition 4).work) ∧
    (unbroken fourSteps addition 4).work.eval = [.integer 3] ∧
    ∃ first, Ran fourSteps loop first 4 2 .warn "Step budget of 4 exhausted"
      (unbroken fourSteps loop 4).work := by
  have hhalted : (unbroken fourSteps addition 4).status = .halted := rfl
  have hbefore : ∀ j < 4, (unbroken fourSteps addition j).status.isTerminal = false := by
    decide +kernel
  have hnever : ∀ j ≤ 4, (unbroken fourSteps loop j).status.isTerminal = false := by
    decide +kernel
  obtain ⟨first, -, -, -, hends, -⟩ := runScript_budgeted fourSteps addition
  obtain ⟨first', -, -, -, -, hspent⟩ := runScript_budgeted fourSteps loop
  exact ⟨hhalted, ⟨first, (hends 4 (Nat.le_refl _) hbefore).1 hhalted⟩, rfl, first', hspent hnever⟩

end StackScript.Console
