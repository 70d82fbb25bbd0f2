import StackScript.Engine.Step
import StackScript.Proofs.Reading

/-!
# What a step can do

`Control.Performs` lists every way in which an instruction can come out, with the engine it
leaves: which frames there are afterwards, what became of the workspace, and which fault was
raised. `Control.performs` says that the list is complete, so that a proof about all instructions
is a proof about the entries of the list. `Control.Advances` and `Control.advances` do the same for
reading the next instruction.

Only the queries that come with the machine are considered as host calls: others may do anything.
-/

namespace StackScript

/-- The value of the condition for which a jump on a condition is taken. -/
def Jump.sense? : Jump → Option Bool
  | .ifTrue => some true
  | .ifFalse => some false
  | .always | .call => none

/-- The machine comes with no host call that performs actions. -/
theorem Service.find?_builtin_ne_actions (name : String) (actions : List HostAction) :
    Service.builtin.find? name ≠ some (.actions actions) := by
  intro h
  obtain ⟨entry, hmem, hentry⟩ : ∃ entry ∈ Service.builtin.entries, entry.2 = .actions actions := by
    obtain ⟨before, after, hentries, -⟩ := List.lookup_eq_some_iff.1 h
    exact ⟨(name, .actions actions), by simp [hentries], rfl⟩
  simp only [Service.builtin, List.mem_cons, List.not_mem_nil, or_false] at hmem
  rcases hmem with rfl | rfl | rfl | rfl <;> cases hentry

/-! ### Pushes -/

/-- The item that a constant stands for. -/
def Constant.item : Constant → Item
  | .empty => .bytes []
  | .minusOne => .integer (-1)
  | .small n => .integer (Int.ofNat n.val + 1)

/-- The item that an instruction pushes, if that is all it does. -/
def Instruction.pushed? : Instruction → Option Item
  | .pushBytes data | .pushData _ data => some (.bytes data)
  | .plain (.constant c) => some c.item
  | _ => none

namespace Control

theorem perform_of_pushed? {found : Instruction} {item : Item} (h : found.pushed? = some item)
    (e : Engine) : perform found e =
      .ok () { e with work := { e.work with eval := item :: e.work.eval } } := by
  cases found with
  | pushBytes data | pushData width data =>
    cases h
    rfl
  | plain op =>
    cases op with
    | constant c =>
      cases h
      cases c <;> rfl
    | _ => cases h
  | _ => cases h

/-! ### Performing an instruction -/

/-- The instruction is the operation on the workspace, with what the host provides. -/
theorem perform_plain (op : Plain) (e : Engine) : perform (.plain op) e =
    match op.run ⟨e.crypto, e.container.map (·.message)⟩ e.work with
    | .ok () work => .ok () { e with work }
    | .error fault work => .error fault { e with work } := by
  show onWork (op.run ⟨e.crypto, e.container.map (·.message)⟩) e = _
  simp only [onWork]
  cases op.run ⟨e.crypto, e.container.map (·.message)⟩ e.work <;> rfl

theorem perform_plain_ok {op : Plain} {e : Engine} {work : Workspace}
    (h : op.run ⟨e.crypto, e.container.map (·.message)⟩ e.work = .ok () work) :
    perform (.plain op) e = .ok () { e with work } := by
  rw [perform_plain, h]

theorem perform_plain_eq_error_iff {op : Plain} {e e' : Engine} {fault : Fault} :
    perform (.plain op) e = .error fault e' ↔
      ∃ work, op.run ⟨e.crypto, e.container.map (·.message)⟩ e.work = .error fault work ∧
        e' = { e with work } := by
  rw [perform_plain]
  cases op.run ⟨e.crypto, e.container.map (·.message)⟩ e.work with
  | ok _ work => simp
  | error found work =>
    constructor
    · intro h
      cases h
      exact ⟨work, rfl, rfl⟩
    · rintro ⟨_, h, rfl⟩
      cases h
      rfl

/-- The operation that an instruction consists of, if it works on the workspace alone. -/
def operation? (e : Engine) : Instruction → Option (Operation Unit)
  | .pushBytes data | .pushData _ data => some (Operation.pushBytes data)
  | .plain op => some (op.run ⟨e.crypto, e.container.map (·.message)⟩)
  | .jump .. | .invoke .. | .syscall _ | .ret => none

/-- It is a push of bytes or one of the operations on the stacks. -/
theorem operation?_cases {e : Engine} {found : Instruction} {op : Operation Unit}
    (h : operation? e found = some op) :
    (∃ data, op = Operation.pushBytes data) ∨
      ∃ (verifier : Verifier) (plain : Plain), op = plain.run verifier := by
  cases found with
  | pushBytes data => exact .inl ⟨data, (Option.some.inj h).symm⟩
  | pushData width data => exact .inl ⟨data, (Option.some.inj h).symm⟩
  | plain plain => exact .inr ⟨_, plain, (Option.some.inj h).symm⟩
  | jump kind offset => cases h
  | invoke kind hash => cases h
  | syscall name => cases h
  | ret => cases h

/-- A jump that has just been read leads to `target`, within the script or at its end. -/
structure Leads (frame : Frame) (offset : Int) (target : Nat) : Prop where
  eq : (target : Int) = Int.ofNat frame.cursor - jumpSize + offset
  le_size : target ≤ frame.script.size

/-- The faults of instructions that have done nothing yet. -/
inductive Refuses (e : Engine) (frame : Frame) (rest : Stack Frame) : Instruction → Fault → Prop where
  | target {kind : Jump} {offset target : Int}
      (heq : target = Int.ofNat frame.cursor - jumpSize + offset)
      (h : target < 0 ∨ Int.ofNat frame.script.size < target) :
      Refuses e frame rest (.jump kind offset) (.jumpTarget target frame.script.size)
  | noTable {kind : Invocation} {hash : ScriptHash} (h : e.table = none) :
      Refuses e frame rest (.invoke kind hash) .noScriptTable
  | invalidName {name : Bytes} :
      Refuses e frame rest (.syscall name) (.invalidName (Text.Utf8.decodeLossy name))
  | unknownCall {name : Bytes} :
      Refuses e frame rest (.syscall name) (.unknownCall (Text.Utf8.decodeLossy name))
  | noContainer {name : Bytes} (h : e.container = none) :
      Refuses e frame rest (.syscall name) .noContainer
  | noCalling {name : Bytes} (h : rest = []) :
      Refuses e frame rest (.syscall name) .noCallingFrame

/-- How an instruction comes out that has just been read by the top one of the frames
`frame :: rest`. -/
inductive Performs (e : Engine) (frame : Frame) (rest : Stack Frame) :
    Instruction → EStateM.Result Fault Engine Unit → Prop where
  | refuse {found : Instruction} {fault : Fault} (h : Refuses e frame rest found fault) :
      Performs e frame rest found (.error fault e)
  | work {found : Instruction} {op : Operation Unit} {work : Workspace}
      (hop : operation? e found = some op) (hrun : op e.work = .ok () work) :
      Performs e frame rest found (.ok () { e with work })
  | workFault {found : Instruction} {op : Operation Unit} {fault : Fault} {work : Workspace}
      (hop : operation? e found = some op) (hrun : op e.work = .error fault work) :
      Performs e frame rest found (.error fault { e with work })
  | move {offset : Int} {target : Nat} (h : Leads frame offset target) :
      Performs e frame rest (.jump .always offset)
        (.ok () { e with frames := { frame with cursor := target } :: rest })
  | branch {kind : Jump} {offset : Int} {target : Nat} {sense : Bool} {work : Workspace}
      (h : Leads frame offset target) (hkind : kind.sense? = some sense)
      (hpop : Operation.popBool e.work = .ok sense work) :
      Performs e frame rest (.jump kind offset)
        (.ok () { e with work, frames := { frame with cursor := target } :: rest })
  | skip {kind : Jump} {offset : Int} {sense : Bool} {work : Workspace}
      (hkind : kind.sense? = some sense) (hpop : Operation.popBool e.work = .ok (!sense) work) :
      Performs e frame rest (.jump kind offset) (.ok () { e with work })
  | branchFault {kind : Jump} {offset : Int} {fault : Fault} {work : Workspace}
      (hpop : Operation.popBool e.work = .error fault work) :
      Performs e frame rest (.jump kind offset) (.error fault { e with work })
  | enter {offset : Int} {target : Nat} (h : Leads frame offset target) :
      Performs e frame rest (.jump .call offset)
        (.ok () { e with frames := { frame with cursor := target } :: frame :: rest })
  | missing {kind : Invocation} {hash : ScriptHash} {table table' : ScriptTable}
      (h : e.table = some table) (hget : table.get hash = (none, table')) :
      Performs e frame rest (.invoke kind hash)
        (.error (.scriptNotFound hash) { e with table := some table' })
  | nested {hash : ScriptHash} {table table' : ScriptTable} {script : Script}
      (h : e.table = some table) (hget : table.get hash = (some script, table')) :
      Performs e frame rest (.invoke .nested hash)
        (.ok () ({ e with table := some table' }.load script false))
  | tail {hash : ScriptHash} {table table' : ScriptTable} {script : Script}
      (h : e.table = some table) (hget : table.get hash = (some script, table')) :
      Performs e frame rest (.invoke .tail hash)
        (.ok () ({ e with table := some table', frames := rest }.load script false))
  | container {name : Bytes} {container : ScriptContainer} (h : e.container = some container) :
      Performs e frame rest (.syscall name)
        (.ok () { e with
          work := { e.work with eval := .host container.object :: e.work.eval } })
  | hash {name : Bytes} {depth : Nat} {asked : Frame} (h : (frame :: rest)[depth]? = some asked) :
      Performs e frame rest (.syscall name)
        (.ok () { e with
          frames := (frame :: rest).set depth (asked.remember e.crypto)
          work := { e.work with eval := .bytes (asked.hash e.crypto).bytes :: e.work.eval } })
  | leave :
      Performs e frame rest .ret
        (.ok () { e with
          frames := rest
          status := if rest.isEmpty then .halted else e.status })

section Performs

variable {e : Engine} {frame : Frame} {rest : Stack Frame}

theorem current_eq (hframes : e.frames = frame :: rest) : current e = .ok frame e := by
  unfold current Engine.currentFrame
  rw [run_bind, run_get]
  simp only [hframes]
  rfl

theorem leave_eq (hframes : e.frames = frame :: rest) :
    leave e = .ok () { e with
      frames := rest
      status := if rest.isEmpty then .halted else e.status } := by
  unfold leave
  rw [run_modify]
  simp only [hframes]
  cases rest <;> rfl

theorem performs_operation {found : Instruction} {op : Operation Unit}
    (hop : operation? e found = some op) : Performs e frame rest found (onWork op e) := by
  unfold onWork
  simp only
  cases hrun : op e.work with
  | ok a work => exact .work hop hrun
  | error fault work => exact .workFault hop hrun

/-- A jump leads somewhere in the script, or is refused. -/
theorem jumpTarget_cases (hframes : e.frames = frame :: rest) (kind : Jump) (offset : Int) :
    (∃ target, Leads frame offset target ∧ jumpTarget offset e = .ok target e) ∨
      ∃ fault, Refuses e frame rest (.jump kind offset) fault ∧
        jumpTarget offset e = .error fault e := by
  unfold jumpTarget
  rw [run_bind, current_eq hframes]
  simp only
  split
  · rename_i h
    exact .inr ⟨_, .target rfl h, rfl⟩
  · rename_i h
    refine .inl ⟨_, ⟨?_, ?_⟩, rfl⟩ <;> simp only [Int.ofNat_eq_natCast] at h ⊢ <;> omega

theorem moveTo_eq (hframes : e.frames = frame :: rest) (target : Nat) :
    moveTo target e = .ok () { e with frames := { frame with cursor := target } :: rest } := by
  unfold moveTo
  rw [run_modify, hframes]

/-- A jump on a condition: it is taken if the condition has the value `sense`. -/
theorem performs_branch (kind : Jump) {offset : Int} {target : Nat} {sense : Bool}
    (hframes : e.frames = frame :: rest) (hleads : Leads frame offset target)
    (hkind : kind.sense? = some sense) :
    Performs e frame rest (.jump kind offset)
      ((do if (← onWork Operation.popBool) == sense then moveTo target : Control Unit) e) := by
  rw [run_bind]
  unfold onWork
  simp only
  cases hpop : Operation.popBool e.work with
  | error fault work => exact .branchFault hpop
  | ok condition work =>
    simp only
    by_cases h : condition = sense
    · subst h
      have hmove := moveTo_eq (show { e with work }.frames = frame :: rest from hframes) target
      rw [beq_self_eq_true, if_pos rfl]
      exact hmove ▸ .branch hleads hkind hpop
    · rw [if_neg (by simpa using h)]
      rw [Bool.eq_not_of_ne h] at hpop
      exact .skip hkind hpop

theorem performs_jump (hframes : e.frames = frame :: rest) (kind : Jump) (offset : Int) :
    Performs e frame rest (.jump kind offset) (jump kind offset e) := by
  unfold jump
  rw [run_bind]
  obtain ⟨target, hleads, htarget⟩ | ⟨fault, hrefuses, htarget⟩ :=
    jumpTarget_cases hframes kind offset
  · rw [htarget]
    cases kind with
    | always =>
      simp only
      rw [moveTo_eq hframes]
      exact .move hleads
    | ifTrue =>
      have h := performs_branch .ifTrue hframes hleads rfl
      simpa using h
    | ifFalse =>
      have h := performs_branch .ifFalse hframes hleads rfl
      simpa using h
    | call =>
      simp only [enter, run_modify, hframes]
      exact .enter hleads
  · rw [htarget]
    exact .refuse hrefuses

theorem findScript_of_none (htable : e.table = none) (hash : ScriptHash) :
    findScript hash e = .error .noScriptTable e := by
  unfold findScript
  rw [run_bind, run_get]
  simp only [htable]
  rfl

theorem findScript_eq {table : ScriptTable} (htable : e.table = some table) (hash : ScriptHash) :
    findScript hash e = match table.get hash with
      | (some script, table') => .ok script { e with table := some table' }
      | (none, table') => .error (.scriptNotFound hash) { e with table := some table' } := by
  unfold findScript
  rw [run_bind, run_get]
  simp only [htable]
  cases table.get hash with
  | mk found table' => cases found <;> rfl

theorem performs_invoke (hframes : e.frames = frame :: rest) (kind : Invocation)
    (hash : ScriptHash) : Performs e frame rest (.invoke kind hash) (invoke kind hash e) := by
  unfold invoke
  rw [run_bind]
  cases htable : e.table with
  | none =>
    rw [findScript_of_none htable]
    exact .refuse (.noTable htable)
  | some table =>
    rw [findScript_eq htable]
    cases hget : table.get hash with
    | mk found table' =>
      cases found with
      | none => exact .missing htable hget
      | some script =>
        cases kind with
        | nested => exact .nested htable hget
        | tail =>
          simp only [run_modify, hframes, List.tail_cons]
          exact .tail htable hget

theorem pushHash_eq (e : Engine) (depth : Nat) (missing : Fault) :
    pushHash depth missing e = match e.frames[depth]? with
      | none => .error missing e
      | some frame => .ok () { e with
          frames := e.frames.set depth (frame.remember e.crypto)
          work := { e.work with eval := .bytes (frame.hash e.crypto).bytes :: e.work.eval } } := by
  unfold pushHash
  rw [run_bind, run_get]
  simp only
  cases e.frames[depth]? with
  | none => rfl
  | some frame => rfl

theorem breakAt_eq (e : Engine) (offset : Nat) :
    act (.breakAt offset) e = match e.frames with
      | frame :: _ =>
          .ok () { e with breakpoints := e.breakpoints.insert frame.breakpoints offset }
      | [] => .error .noCurrentFrame e := by
  simp only [act, run_bind, run_get, Engine.addBreakpoint]
  cases e.frames with
  | nil => rfl
  | cons frame rest => rfl

theorem performs_pushHash (hframes : e.frames = frame :: rest) (name : Bytes) {depth : Nat}
    {missing : Fault}
    (hmissing : (frame :: rest)[depth]? = none → Refuses e frame rest (.syscall name) missing) :
    Performs e frame rest (.syscall name) (pushHash depth missing e) := by
  rw [pushHash_eq, hframes]
  cases hasked : (frame :: rest)[depth]? with
  | none => exact .refuse (hmissing hasked)
  | some asked => exact .hash hasked

theorem performs_handle (hframes : e.frames = frame :: rest) (name : Bytes) {handler : Handler}
    (hhandler : ∀ actions, handler ≠ .actions actions) :
    Performs e frame rest (.syscall name) (handle handler e) := by
  cases handler with
  | scriptContainer =>
    simp only [handle, run_bind, run_get]
    cases hcontainer : e.container with
    | none => exact .refuse (.noContainer hcontainer)
    | some container => exact .container hcontainer
  | executingHash => exact performs_pushHash hframes name fun h => by simp at h
  | callingHash =>
    refine performs_pushHash hframes name fun h => .noCalling ?_
    simpa using h
  | entryHash =>
    simp only [handle, run_bind, run_get]
    refine performs_pushHash hframes name fun h => ?_
    rw [hframes] at h
    simp at h
  | actions actions => exact absurd rfl (hhandler actions)

theorem performs_call (hservice : e.service = .builtin) (hframes : e.frames = frame :: rest)
    (name : Bytes) : Performs e frame rest (.syscall name) (call name e) := by
  unfold call
  simp only
  by_cases hascii : Text.Utf8.isAscii (Text.Utf8.decodeLossy name) = true
  · simp only [hascii, Bool.not_true, Bool.false_eq_true, if_false]
    rw [run_bind, run_get]
    simp only [hservice]
    cases hfind : Service.builtin.find? (Text.Utf8.decodeLossy name) with
    | none => exact .refuse .unknownCall
    | some handler =>
      refine performs_handle hframes name fun actions hactions => ?_
      exact Service.find?_builtin_ne_actions _ actions (hactions ▸ hfind)
  · simp only [hascii, Bool.not_false, if_true]
    exact .refuse .invalidName

/-- The list is complete. -/
theorem performs (hservice : e.service = .builtin) (hframes : e.frames = frame :: rest)
    (found : Instruction) : Performs e frame rest found (perform found e) := by
  cases found with
  | pushBytes data =>
    have hop : operation? e (.pushBytes data) = some (Operation.pushBytes data) := rfl
    exact performs_operation hop
  | pushData width data =>
    have hop : operation? e (.pushData width data) = some (Operation.pushBytes data) := rfl
    exact performs_operation hop
  | jump kind offset => exact performs_jump hframes kind offset
  | invoke kind hash => exact performs_invoke hframes kind hash
  | syscall name => exact performs_call hservice hframes name
  | ret =>
    have h : Performs e frame rest .ret (leave e) := by
      rw [leave_eq hframes]
      exact .leave
    exact h
  | plain op =>
    have hop : operation? e (.plain op) = some (op.run ⟨e.crypto, e.container.map (·.message)⟩) :=
      rfl
    exact performs_operation hop

end Performs

/-! ### Reading an instruction -/

/-- How the next instruction of the top one of the frames `frame :: rest` comes out. -/
inductive Advances (e : Engine) (frame : Frame) (rest : Stack Frame) :
    EStateM.Result Fault Engine Unit → Prop where
  | atEnd (h : frame.atEnd = true) :
      Advances e frame rest (.ok () { e with
        frames := rest
        status := if rest.isEmpty then .halted else e.status })
  | refuse {byte : UInt8} {next : Nat}
      (hbyte : Reader.byte.runAt frame.script frame.cursor = .ok byte next)
      (hpush : frame.pushOnly = true) (h : isRefused byte = true) :
      Advances e frame rest (.error (.pushOnly (byteName byte))
        { e with frames := { frame with cursor := next } :: rest })
  | undecoded {cause : DecodeError} {next : Nat}
      (hdecode : Instruction.decodeAt frame.script frame.cursor = .error cause next) :
      Advances e frame rest (.error (.decode cause)
        { e with frames := { frame with cursor := next } :: rest })
  | perform {found : Instruction} {byte : UInt8} {behind next : Nat}
      (hbyte : Reader.byte.runAt frame.script frame.cursor = .ok byte behind)
      (hpush : frame.pushOnly = true → isRefused byte = false)
      (hdecode : Instruction.decodeAt frame.script frame.cursor = .ok found next) :
      Advances e frame rest
        (perform found { e with frames := { frame with cursor := next } :: rest })

theorem onFrame_eq {α : Type} {e : Engine} {frame : Frame} {rest : Stack Frame}
    (hframes : e.frames = frame :: rest) (reader : Reader α) :
    onFrame reader e = match reader.runAt frame.script frame.cursor with
      | .ok a next => .ok a { e with frames := { frame with cursor := next } :: rest }
      | .error cause next =>
          .error (.decode cause) { e with frames := { frame with cursor := next } :: rest } := by
  unfold onFrame Frame.read
  simp only [hframes]
  cases reader.runAt frame.script frame.cursor <;> rfl

theorem fetch_of_unread {e : Engine} {frame : Frame} {rest : Stack Frame} {cause : DecodeError}
    {next : Nat} (hframes : e.frames = frame :: rest)
    (hbyte : Reader.byte.runAt frame.script frame.cursor = .error cause next) :
    fetch e = .error (.decode cause) { e with frames := { frame with cursor := next } :: rest } := by
  unfold fetch
  rw [run_bind, current_eq hframes]
  simp only
  rw [run_bind, onFrame_eq hframes, hbyte]

theorem fetch_of_refused {e : Engine} {frame : Frame} {rest : Stack Frame} {byte : UInt8}
    {behind : Nat} (hframes : e.frames = frame :: rest)
    (hbyte : Reader.byte.runAt frame.script frame.cursor = .ok byte behind)
    (hrefused : (frame.pushOnly && isRefused byte) = true) :
    fetch e = .error (.pushOnly (byteName byte))
      { e with frames := { frame with cursor := behind } :: rest } := by
  unfold fetch
  rw [run_bind, current_eq hframes]
  simp only
  rw [run_bind, onFrame_eq hframes, hbyte]
  simp only [if_pos hrefused]
  rfl

/-- Reading goes on behind an opcode that is not refused. -/
theorem fetch_eq {e : Engine} {frame : Frame} {rest : Stack Frame} {byte : UInt8} {behind : Nat}
    (hframes : e.frames = frame :: rest)
    (hbyte : Reader.byte.runAt frame.script frame.cursor = .ok byte behind)
    (hpush : ¬(frame.pushOnly && isRefused byte) = true) :
    fetch e = match Instruction.decodeAt frame.script frame.cursor with
      | .ok found next => .ok found { e with frames := { frame with cursor := next } :: rest }
      | .error cause next =>
          .error (.decode cause) { e with frames := { frame with cursor := next } :: rest } := by
  unfold fetch
  rw [run_bind, current_eq hframes]
  simp only
  rw [run_bind, onFrame_eq hframes, hbyte, Instruction.decodeAt_eq, hbyte]
  simp only [if_neg hpush]
  have hmoved : { e with frames := { frame with cursor := behind } :: rest }.frames =
      { frame with cursor := behind } :: rest := rfl
  refine (onFrame_eq hmoved _).trans ?_
  cases (Instruction.readOperand byte frame.cursor).runAt frame.script behind <;> rfl

/-- A frame that may do everything fetches whatever stands at its cursor. -/
theorem fetch_of_decodeAt {e : Engine} {frame : Frame} {rest : Stack Frame} {found : Instruction}
    {next : Nat} (hframes : e.frames = frame :: rest) (hpush : frame.pushOnly = false)
    (hdecode : Instruction.decodeAt frame.script frame.cursor = .ok found next) :
    fetch e = .ok found { e with frames := { frame with cursor := next } :: rest } := by
  cases hbyte : Reader.byte.runAt frame.script frame.cursor with
  | error cause behind =>
    rw [Instruction.decodeAt_eq, hbyte] at hdecode
    cases hdecode
  | ok byte behind => rw [fetch_eq hframes hbyte (by simp [hpush]), hdecode]

theorem advances {e : Engine} {frame : Frame} {rest : Stack Frame}
    (hframes : e.frames = frame :: rest) : Advances e frame rest (advance e) := by
  unfold advance
  rw [run_bind, current_eq hframes]
  simp only
  by_cases hend : frame.atEnd = true
  · rw [if_pos hend, leave_eq hframes]
    exact .atEnd hend
  rw [if_neg hend, run_bind]
  cases hbyte : Reader.byte.runAt frame.script frame.cursor with
  | error cause next =>
    rw [fetch_of_unread hframes hbyte]
    refine .undecoded ?_
    rw [Instruction.decodeAt_eq, hbyte]
  | ok byte behind =>
    by_cases hrefused : (frame.pushOnly && isRefused byte) = true
    · rw [fetch_of_refused hframes hbyte hrefused]
      rw [Bool.and_eq_true] at hrefused
      exact .refuse hbyte hrefused.1 hrefused.2
    · rw [fetch_eq hframes hbyte hrefused]
      cases hdecode : Instruction.decodeAt frame.script frame.cursor with
      | error cause next => exact .undecoded hdecode
      | ok found next => exact .perform hbyte (fun h => by simpa [h] using hrefused) hdecode

end Control

/-! ### Steps -/

theorem Status.ne_faulted_of_not_isTerminal {status : Status} (h : status.isTerminal = false) :
    status ≠ .faulted := by
  rintro rfl
  cases h

namespace Engine

variable {e : Engine}

theorem step_of_terminal (h : e.status.isTerminal = true) : e.step = e := by
  rw [step, if_pos h]

theorem step_of_nil (h : e.status.isTerminal = false) (hframes : e.frames = []) :
    e.step = { e with status := .halted } := by
  unfold step
  rw [if_neg (by simp [h]), if_pos (by rw [hframes]; rfl)]

/-- A step of an engine that can go on performs the next instruction. -/
theorem step_of_cons {frame : Frame} {rest : Stack Frame} (h : e.status.isTerminal = false)
    (hframes : e.frames = frame :: rest) :
    e.step = match Control.advance e with
      | .ok () e => if e.atBreakpoint then { e with status := .paused } else e
      | .error fault e => { e with status := .faulted, reason := some fault } := by
  unfold step
  rw [if_neg (by simp [h])]
  refine (if_neg (by rw [hframes]; simp)).trans ?_
  cases Control.advance e <;> rfl

theorem step_of_advance_ok {frame : Frame} {rest : Stack Frame} {last : Engine}
    (h : e.status.isTerminal = false) (hframes : e.frames = frame :: rest)
    (hadvance : Control.advance e = .ok () last) (hbreak : last.atBreakpoint = false) :
    e.step = last := by
  rw [step_of_cons h hframes, hadvance]
  exact if_neg (Bool.eq_false_iff.mp hbreak)

theorem step_of_advance_error {frame : Frame} {rest : Stack Frame} {fault : Fault} {last : Engine}
    (h : e.status.isTerminal = false) (hframes : e.frames = frame :: rest)
    (hadvance : Control.advance e = .error fault last) :
    e.step = { last with status := .faulted, reason := some fault } := by
  rw [step_of_cons h hframes, hadvance]

/-- What the next instruction keeps, a step keeps, if it does not depend on the status and on the
fault that stopped the run. -/
theorem step_of_advance {keeps : Engine → Prop} (h : keeps e)
    (hstatus : ∀ e status reason, keeps e → keeps { e with status, reason })
    (hadvance : ∀ frame rest, e.frames = frame :: rest →
      Outcome (fun _ => keeps) (fun _ => keeps) (Control.advance e)) : keeps e.step := by
  by_cases hterminal : e.status.isTerminal = true
  · rwa [step_of_terminal hterminal]
  rw [Bool.not_eq_true] at hterminal
  cases hframes : e.frames with
  | nil =>
    rw [step_of_nil hterminal hframes]
    exact hstatus e .halted e.reason h
  | cons frame rest =>
    rw [step_of_cons hterminal hframes]
    have hresult := hadvance frame rest hframes
    cases hrun : Control.advance e with
    | ok _ e' =>
      rw [hrun] at hresult
      by_cases hbreak : e'.atBreakpoint = true
      · simp only [if_pos hbreak]
        exact hstatus e' .paused e'.reason hresult
      · simp only [if_neg hbreak]
        exact hresult
    | error fault e' =>
      rw [hrun] at hresult
      exact hstatus e' .faulted (some fault) hresult

end Engine

end StackScript
