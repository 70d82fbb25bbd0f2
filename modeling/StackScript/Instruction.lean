import StackScript.Opcode
import StackScript.Script

/-!
# Instructions

An instruction is an opcode together with its operand. `read` reads one at the cursor, and the
machine reads through `readOperand`. Scripts are written by the builder and by the assembler, which
have their own ways from an operand to its bytes.
-/

namespace StackScript

/-- An opcode with its operand. -/
inductive Instruction where
  /-- Pushes 1 to 75 bytes; their number is the opcode. -/
  | pushBytes (data : Bytes)
  /-- Pushes bytes behind a length. -/
  | pushData (width : LengthWidth) (data : Bytes)
  /-- Moves the cursor, by an offset from the start of the instruction. -/
  | jump (kind : Jump) (offset : Int)
  /-- Runs the script with this hash. -/
  | invoke (kind : Invocation) (hash : ScriptHash)
  /-- Calls the host by name. -/
  | syscall (name : Bytes)
  /-- Leaves the frame. -/
  | ret
  /-- Works on the stacks alone. -/
  | plain (op : Plain)
  deriving DecidableEq

namespace Instruction

/-- The operand of an opcode found in the table. -/
def readArguments : Opcode → Reader Instruction
  | .plain op => return .plain op
  | .pushData .one => return .pushData .one (← Reader.data1)
  | .pushData .two => return .pushData .two (← Reader.data2)
  | .pushData .four => return .pushData .four (← Reader.data4)
  | .jump kind => return .jump kind (← Reader.signed 2)
  | .ret => return .ret
  | .invoke kind => return .invoke kind (← Reader.hash)
  | .syscall => return .syscall (← Reader.varBytes maxNameLength)

/-- The rest of the instruction that starts with `byte` at `offset`, from behind that byte. -/
def readOperand (byte : UInt8) (offset : Nat) : Reader Instruction := do
  if isPushBytes byte then return .pushBytes (← Reader.exact byte.toNat)
  match Opcode.ofByte? byte with
  | some op => readArguments op
  | none => throw (.invalidOpcode byte offset)

/-- The instruction at the cursor. -/
def read : Reader Instruction := do
  let offset ← get
  readOperand (← Reader.byte) offset

/-- The instruction at an offset of a script, with the cursor where reading ended. -/
def decodeAt (script : Script) (offset : Nat) : EStateM.Result DecodeError Nat Instruction :=
  read.runAt script offset

end Instruction

end StackScript
