import StackScript.Frame
import StackScript.ScriptTable
import StackScript.Service
import StackScript.Workspace

/-!
# The engine

An engine holds the frames of a run, the workspace they share, and what the host provides. It is
running, paused at a breakpoint, halted, or faulted; the last two are final. The fault that stopped
it is kept apart from the status.
-/

namespace StackScript

/-- Where an engine stands between steps. -/
inductive Status where
  /-- Neither finished nor paused. -/
  | running
  /-- The last frame returned. -/
  | halted
  /-- A fault stopped the run. -/
  | faulted
  /-- The cursor is at a breakpoint. -/
  | paused
  deriving DecidableEq

namespace Status

instance : Inhabited Status := ⟨.running⟩

/-- Whether the run is over. -/
def isTerminal : Status → Bool
  | .halted | .faulted => true
  | .running | .paused => false

/-- Whether a run of several steps has to stop. -/
def isStopped : Status → Bool
  | .running => false
  | .halted | .faulted | .paused => true

/-- The name of a status. -/
def name : Status → String
  | .running => "NONE"
  | .halted => "HALT"
  | .faulted => "FAULT"
  | .paused => "BREAK"

end Status

/-- What a script is run for: an object of the host, and the message that signatures are made
for. -/
structure ScriptContainer where
  /-- The object. -/
  object : HostObject
  /-- The message. -/
  message : Bytes

/-- The state of a run. -/
structure Engine where
  /-- Digests and signature checks. -/
  crypto : Crypto
  /-- Scripts that can be called. -/
  table : Option ScriptTable := none
  /-- What the script is run for. -/
  container : Option ScriptContainer := none
  /-- The host calls. -/
  service : Service := .builtin
  /-- The frames, the current one first. -/
  frames : Stack Frame := []
  /-- The stacks and the heap. -/
  work : Workspace := {}
  /-- The sets of breakpoints. -/
  breakpoints : Breakpoints := {}
  /-- Where the run stands. -/
  status : Status := .running
  /-- The fault that stopped the run. -/
  reason : Option Fault := none

namespace Engine

/-- An engine that has loaded nothing. -/
def new (crypto : Crypto) : Engine := { crypto }

/-- The engine with a script container of a given name. -/
def withContainer (e : Engine) (name : String) (message : Bytes) : Engine :=
  let (object, heap) := e.work.heap.newObject name none
  { e with container := some ⟨object, message⟩, work := { e.work with heap } }

/-- The engine with a script loaded as the current frame. -/
def load (e : Engine) (script : Script) (pushOnly : Bool) : Engine :=
  let (set, breakpoints) := e.breakpoints.fresh
  { e with frames := { script, pushOnly, breakpoints := set } :: e.frames, breakpoints }

/-- The engine with an item built and put on the evaluation stack. -/
def push (e : Engine) (literal : Literal) : Engine :=
  let (item, heap) := literal.build e.work.heap
  { e with work := { e.work with eval := item :: e.work.eval, heap } }

/-- The engine with a pause ended. -/
def resume (e : Engine) : Engine :=
  match e.status with
  | .paused => { e with status := .running }
  | _ => e

/-- A fault has stopped the engine. -/
def FaultedWith (e : Engine) (fault : Fault) : Prop :=
  e.status = .faulted ∧ e.reason = some fault

instance (e : Engine) (fault : Fault) : Decidable (e.FaultedWith fault) :=
  inferInstanceAs (Decidable (_ ∧ _))

/-- The engine without frames. -/
def dispose (e : Engine) : Engine := { e with frames := [] }

/-- The engine with a host call registered. -/
def register (e : Engine) (name : String) (actions : List HostAction) : Engine :=
  { e with service := e.service.register name (.actions actions) }

/-! ### Frames -/

/-- The current frame. -/
def currentFrame (e : Engine) : Except Fault Frame :=
  match e.frames with
  | frame :: _ => .ok frame
  | [] => .error .noCurrentFrame

/-- The frame below the current one. -/
def callingFrame (e : Engine) : Except Fault Frame :=
  match e.frames with
  | _ :: frame :: _ => .ok frame
  | _ => .error .noCallingFrame

/-- The bottom frame. -/
def entryFrame (e : Engine) : Except Fault Frame :=
  match e.frames.getLast? with
  | some frame => .ok frame
  | none => .error .noCurrentFrame

/-! ### Breakpoints -/

/-- Sets a breakpoint in the current frame. -/
def addBreakpoint (e : Engine) (offset : Nat) : Except Fault Engine :=
  match e.frames with
  | frame :: _ => .ok { e with breakpoints := e.breakpoints.insert frame.breakpoints offset }
  | [] => .error .noCurrentFrame

/-- Removes a breakpoint from the current frame, and tells whether there was one. -/
def removeBreakpoint (e : Engine) (offset : Nat) : Except Fault (Bool × Engine) :=
  match e.frames with
  | frame :: _ =>
      .ok (e.breakpoints.contains frame.breakpoints offset,
        { e with breakpoints := e.breakpoints.erase frame.breakpoints offset })
  | [] => .error .noCurrentFrame

/-- Whether the cursor of the current frame is at a breakpoint. -/
def atBreakpoint (e : Engine) : Bool :=
  match e.frames with
  | frame :: _ => e.breakpoints.contains frame.breakpoints frame.cursor
  | [] => false

end Engine

end StackScript
