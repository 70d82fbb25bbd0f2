import StackScript.Assembly.Program
import StackScript.Engine.Basic
import StackScript.Operation

/-!
# Steps

A step fetches the instruction at the cursor of the current frame and performs it; a frame whose
cursor has run off its script returns instead. A fault ends the run, and what the instruction did
before it stays done. After a step that succeeds the engine pauses if the cursor is at a
breakpoint.
-/

namespace StackScript

/-- A computation on the engine that may fail. -/
abbrev Control := EStateM Fault Engine

namespace Control

/-- A value, or its failure as a fault. -/
def ofExcept {α : Type} : Except Fault α → Control α
  | .ok a => pure a
  | .error fault => throw fault

/-- Performs an operation on the workspace. The engine does without it meanwhile. -/
def onWork {α : Type} (operation : Operation α) : Control α := fun e =>
  let work := e.work
  let e := { e with work := {} }
  match operation work with
  | .ok a work => .ok a { e with work }
  | .error fault work => .error fault { e with work }

/-- Reads at the cursor of the current frame. -/
def onFrame {α : Type} (reader : Reader α) : Control α := fun e =>
  match e.frames with
  | [] => .error .noCurrentFrame e
  | frame :: rest =>
    match frame.read reader with
    | (.ok a, frame) => .ok a { e with frames := frame :: rest }
    | (.error cause, frame) => .error (.decode cause) { e with frames := frame :: rest }

/-- The current frame. -/
def current : Control Frame := do ofExcept (← get).currentFrame

/-- What instructions need from the host. -/
def verifier : Control Verifier := do
  let e ← get
  return ⟨e.crypto, e.container.map (·.message)⟩

/-! ### Control flow -/

/-- Leaves the current frame, and halts if it was the last one. -/
def leave : Control Unit := modify fun e =>
  match e.frames with
  | [] => e
  | [_] => { e with frames := [], status := .halted }
  | _ :: frame :: rest => { e with frames := frame :: rest }

/-- Moves the cursor of the current frame. -/
def moveTo (target : Nat) : Control Unit := modify fun e =>
  match e.frames with
  | frame :: rest => { e with frames := { frame with cursor := target } :: rest }
  | [] => e

/-- Calls into the current script: a frame like the current one at another cursor. -/
def enter (target : Nat) : Control Unit := modify fun e =>
  match e.frames with
  | frame :: rest => { e with frames := { frame with cursor := target } :: frame :: rest }
  | [] => e

/-- The number of bytes of a jump. -/
def jumpSize : Int := 3

/-- Where a jump leads that has just been read: it must be within the script or at its end. -/
def jumpTarget (offset : Int) : Control Nat := do
  let frame ← current
  let target := Int.ofNat frame.cursor - jumpSize + offset
  if target < 0 ∨ Int.ofNat frame.script.size < target then
    throw (.jumpTarget target frame.script.size)
  return target.toNat

/-- Performs a jump. -/
def jump (kind : Jump) (offset : Int) : Control Unit := do
  let target ← jumpTarget offset
  match kind with
  | .always => moveTo target
  | .ifTrue => if ← onWork Operation.popBool then moveTo target
  | .ifFalse => if !(← onWork Operation.popBool) then moveTo target
  | .call => enter target

/-- The script with a hash, from the script table. -/
def findScript (hash : ScriptHash) : Control Script := do
  let e ← get
  match e.table with
  | none => throw .noScriptTable
  | some table =>
    let (found, table) := table.get hash
    set { e with table := some table }
    match found with
    | some script => return script
    | none => throw (.scriptNotFound hash)

/-- Runs another script. -/
def invoke (kind : Invocation) (hash : ScriptHash) : Control Unit := do
  let script ← findScript hash
  modify fun e =>
    match kind with
    | .nested => e.load script false
    | .tail => { e with frames := e.frames.tail }.load script false

/-! ### Host calls -/

/-- Pushes the hash of the script of the frame at a depth, and has the frame remember it. -/
def pushHash (depth : Nat) (missing : Fault) : Control Unit := do
  let e ← get
  match e.frames[depth]? with
  | none => throw missing
  | some frame =>
    set { e with frames := e.frames.set depth (frame.remember e.crypto) }
    onWork (Operation.pushBytes (frame.hash e.crypto).bytes)

/-- Performs an action of the host. -/
def act : HostAction → Control Unit
  | .push literal => modify fun e => e.push literal
  | .pop => do
      let _ ← onWork Operation.pop
  | .load script pushOnly => modify fun e => e.load script pushOnly
  | .loadSource source =>
      match Assembly.assemble source with
      | .ok script => modify fun e => e.load script false
      | .error cause => throw (.source cause)
  | .breakAt offset => do
      let e ← ofExcept ((← get).addBreakpoint offset)
      set e
  | .register name actions => modify fun e => e.register name actions
  | .dispose => modify Engine.dispose
  | .fail fault => throw fault

/-- Performs a host call. -/
def handle : Handler → Control Unit
  | .scriptContainer => do
      match (← get).container with
      | some container => onWork (Operation.push (.host container.object))
      | none => throw .noContainer
  | .executingHash => pushHash 0 .noCurrentFrame
  | .callingHash => pushHash 1 .noCallingFrame
  | .entryHash => do pushHash ((← get).frames.length - 1) .noCurrentFrame
  | .actions actions => actions.forM act

/-- Calls the host by name. -/
def call (name : Bytes) : Control Unit := do
  let name := Text.Utf8.decodeLossy name
  if !Text.Utf8.isAscii name then throw (.invalidName name)
  match (← get).service.find? name with
  | some handler => handle handler
  | none => throw (.unknownCall name)

/-! ### Instructions -/

/-- Performs an instruction that has just been read. -/
def perform : Instruction → Control Unit
  | .pushBytes data => onWork (Operation.pushBytes data)
  | .pushData _ data => onWork (Operation.pushBytes data)
  | .jump kind offset => jump kind offset
  | .invoke kind hash => invoke kind hash
  | .syscall name => call name
  | .ret => leave
  | .plain op => do onWork (op.run (← verifier))

/-- How a fault names an opcode byte. -/
def byteName (byte : UInt8) : String :=
  match Opcode.ofByte? byte with
  | some op => op.mnemonic
  | none => markedByte byte

/-- Whether a push-only frame refuses an opcode byte. -/
def isRefused (byte : UInt8) : Bool := !isPush byte && byte != Opcode.ret.byte

/-- Reads the instruction at the cursor of the current frame. A push-only frame refuses an opcode
before its operand is read. -/
def fetch : Control Instruction := do
  let frame ← current
  let byte ← onFrame Reader.byte
  if frame.pushOnly && isRefused byte then throw (.pushOnly (byteName byte))
  onFrame (Instruction.readOperand byte frame.cursor)

/-- Performs the next instruction of the current frame. -/
def advance : Control Unit := do
  if (← current).atEnd then leave else perform (← fetch)

end Control

namespace Engine

/-- One step. A run that is over stays as it is, and a run without frames halts. -/
def step (e : Engine) : Engine :=
  if e.status.isTerminal then e
  else if e.frames.isEmpty then { e with status := .halted }
  else
    match Control.advance e with
    | .ok () e => if e.atBreakpoint then { e with status := .paused } else e
    | .error fault e => { e with status := .faulted, reason := some fault }

/-- The cursor of the current frame. -/
def cursor (e : Engine) : Nat :=
  match e.frames with
  | frame :: _ => frame.cursor
  | [] => 0

end Engine

end StackScript
