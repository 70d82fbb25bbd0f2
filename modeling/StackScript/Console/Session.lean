import StackScript.Assembly.Listing
import StackScript.Console.Level
import StackScript.Console.Options
import StackScript.Engine.Step
import StackScript.Rendering

/-!
# Running a script for a user

A session runs a script step by step within a budget. It shows the stacks at the end, at every
breakpoint and when the budget is spent, and the log tells what happened. The script may call
itself by its own hash.
-/

namespace StackScript.Console

/-- Something the program writes. -/
inductive Output where
  /-- A message of the log. -/
  | log (level : Level) (message : String)
  /-- A line of the result. -/
  | line (text : String)
  deriving DecidableEq

/-- What a run of the program leaves behind: an exit status, and all it wrote in order. -/
structure Outcome where
  /-- The exit status. -/
  exit : Nat
  /-- What was written. -/
  output : Array Output

/-- A run of a script in progress. -/
structure Session where
  /-- The engine. -/
  engine : Engine
  /-- The number of steps taken. -/
  steps : Nat := 0
  /-- What was written so far. -/
  output : Array Output := #[]

namespace Session

/-- Writes a message. -/
def log (session : Session) (level : Level) (message : String) : Session :=
  { session with output := session.output.push (.log level message) }

/-- The lines that show a stack. -/
def stackLines (title : String) (heap : Heap) (items : Stack Item) : List Output :=
  .line s!"{title} ({items.length} items, top first):" ::
    items.zipIdx.map fun (item, depth) =>
      .line (Text.fourColumns depth ++ ": " ++ item.render .plain heap)

/-- The lines that show both stacks, the alt stack only if it holds something. -/
def stacksLines (work : Workspace) : List Output :=
  stackLines "Evaluation stack" work.heap work.eval ++
    if work.alt.isEmpty then [] else stackLines "Alt stack" work.heap work.alt

/-- Shows the stacks. -/
def showStacks (session : Session) : Session :=
  { session with output := session.output ++ stacksLines session.engine.work }

/-- The end of a session. -/
def finish (session : Session) (exit : Nat) : Outcome := ⟨exit, session.output⟩

/-- What the log shows of the instruction at the cursor of a frame. -/
def instructionText (frame : Frame) : String :=
  if frame.atEnd then "RET (end of script)"
  else match Assembly.textAt frame.script frame.cursor with
    | .ok text => text
    | .error cause => "<" ++ cause.message ++ ">"

/-- Logs the next instruction, with the number of frames and its offset. -/
def traceNext (session : Session) : Session :=
  match session.engine.frames with
  | [] => session
  | frame :: rest =>
      session.log .info
        s!"[{rest.length + 1}] {Text.fourDigits frame.cursor}: {instructionText frame}"

/-- Logs the fault that the last step, from `offset`, has stopped with. -/
def logFault (session : Session) (offset : Nat) : Session :=
  match session.engine.reason with
  | some reason => session.log .debug s!"fault at offset {offset}: {reason.message}"
  | none => session

/-- Takes one step. -/
def advance (session : Session) : Session :=
  let offset := session.engine.cursor
  let session := { session with engine := session.engine.step, steps := session.steps + 1 }
  match session.engine.status with
  | .faulted => session.logFault offset
  | .paused =>
      let session := (session.log .info
        s!"Break at offset {session.engine.cursor} after {session.steps} steps").showStacks
      { session with engine := session.engine.resume }
  | _ => session

/-- Takes one turn: the next instruction is logged if asked for, and one step is taken. -/
def turn (options : Options) (session : Session) : Session :=
  (if options.trace then session.traceNext else session).advance

/-- Takes turns until the engine is at its end, but no more than `remaining`. -/
def proceed (options : Options) : (remaining : Nat) → Session → Session
  | 0, session => session
  | remaining + 1, session =>
      if session.engine.status.isTerminal then session
      else proceed options remaining (session.turn options)

/-- Reports a run that is over. It has failed if a fault is kept. -/
def report (session : Session) : Outcome :=
  match session.engine.reason with
  | some reason =>
      (session.log .error
        s!"FAULT after {session.steps} steps: {reason.message}").showStacks.finish 1
  | none =>
      (session.log .info
        s!"{session.engine.status.name} after {session.steps} steps").showStacks.finish 0

/-- Reports a budget that is spent. -/
def exhausted (session : Session) (options : Options) : Outcome :=
  (session.log .warn s!"Step budget of {options.maxSteps} exhausted").showStacks.finish 2

/-- Reports how a run ended. -/
def conclude (session : Session) (options : Options) : Outcome :=
  if session.engine.status.isTerminal then session.report else session.exhausted options

/-- The hash of a script. -/
def hashOf (script : Script) : ScriptHash := Crypto.secp256k1.hash160 script.bytes

/-- An engine with a script loaded, which can call itself. -/
def loaded (options : Options) (script : Script) : Engine :=
  let table : ScriptTable := { store := ScriptStore.empty.insert (hashOf script) script }
  { Engine.new .secp256k1 with table := some table }.load script options.pushOnly

/-- A session with a script loaded and breakpoints set, or why one cannot be set. -/
def start (options : Options) (script : Script) : Except Fault Session := do
  let engine ← options.breakpoints.foldlM Engine.addBreakpoint (loaded options script)
  return ({ engine } : Session).log .info
    s!"Loaded script {(hashOf script).render} ({script.size} bytes)"

/-- Takes all turns that the budget allows. -/
def spend (options : Options) (session : Session) : Session :=
  session.proceed options options.maxSteps

end Session

/-- Runs a script with the given options. -/
def runScript (options : Options) (script : Script) : Outcome :=
  match Session.start options script with
  | .ok session => (session.spend options).conclude options
  | .error fault => ⟨1, #[.log .error fault.message]⟩

end StackScript.Console
