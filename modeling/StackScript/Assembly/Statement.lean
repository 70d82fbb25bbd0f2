import StackScript.Assembly.Token
import StackScript.Builder

/-!
# Statements

A statement is the name of an instruction and its operands. Besides the names of the table there are
`PUSH`, which takes a literal and picks the shortest push of it, and `PUSHBYTES1` to `PUSHBYTES75`,
which take that many bytes. What a statement stands for is a `Command`. An instruction of the table
is written with an operand that the assembler lays out itself; pushes of literals are left to the
builder.

The operand of a jump is an offset or a label. What a label stands for is a parameter, so that a
statement can be measured before all labels are known: the size of an instruction does not depend
on the offset in it.
-/

namespace StackScript.Assembly

/-- A statement and the line it stands on. -/
structure Statement where
  /-- The line, counted from 1. -/
  line : Nat
  /-- The name of the instruction. -/
  head : Token
  /-- The operands. -/
  operands : List Token

/-- The place of a statement: where its name starts. -/
def Statement.position (s : Statement) : Position := ⟨s.line, s.head.column⟩

/-- What a label stands for. -/
abbrev Resolver := String → Except StatementError Nat

/-! ### Operands -/

/-- What stands between the double quotes of a token. -/
def unquote? (token : String) : Option String :=
  match token.toList with
  | '"' :: rest =>
      if rest.getLast? = some '"' then some (String.ofList rest.dropLast) else none
  | _ => none

/-- Bytes as digits behind the marker `0x`. -/
def hexOperand (token : String) : Except StatementError Bytes :=
  if Text.hasMarker token then
    match Text.Hex.decode (Text.dropMarker token) with
    | .ok data => .ok data
    | .error _ => .error (.operand token "0x-prefixed hex bytes")
  else .error (.operand token "0x-prefixed hex bytes")

/-- Bytes whose number fits into a length. -/
def dataOperand (width : LengthWidth) (token : String) : Except StatementError Bytes := do
  let data ← hexOperand token
  if width.max < data.length then throw (.operand token "data that fits the length prefix")
  return data

/-- A script hash. -/
def hashOperand (token : String) : Except StatementError ScriptHash :=
  match ScriptHash.parse token with
  | .ok hash => .ok hash
  | .error _ => .error (.operand token "20-byte hex script hash")

/-- The name of a host call in double quotes: ASCII, from 1 to 252 characters. -/
def nameOperand (token : String) : Except StatementError Bytes :=
  match unquote? token with
  | none => .error (.operand token "double-quoted syscall name")
  | some name =>
    if name.isEmpty || !Text.Utf8.isAscii name then .error (.callName (.invalid name))
    else
      let bytes := Text.Utf8.ofString name
      if maxNameLength < bytes.length then
        .error (.callName (.tooLong bytes.length maxNameLength))
      else .ok bytes

/-- The offset of a jump at `address`: a number, or the distance to a label. -/
def offsetOperand (resolve : Resolver) (address : Nat) (token : String) :
    Except StatementError Int := do
  let offset ← match Text.signed? 0x8000000000000000 token with
    | some offset => pure offset
    | none => do
        let target ← resolve token
        pure (Int.ofNat target - Int.ofNat address)
  if Number.TwosComplement.fits16 offset then return offset
  throw (.jumpRange offset)

/-! ### Commands -/

/-- What a statement stands for. -/
inductive Command where
  /-- An instruction of the table without operand that works on the stacks alone. -/
  | plain (op : Plain)
  /-- The instruction that leaves the frame. -/
  | ret
  /-- An instruction of the table that pushes bytes behind a length. -/
  | pushData (width : LengthWidth) (data : Bytes)
  /-- An instruction of the table that moves the cursor. -/
  | jump (kind : Jump) (offset : Int)
  /-- An instruction of the table that runs another script. -/
  | invoke (kind : Invocation) (hash : ScriptHash)
  /-- An instruction of the table that calls the host. -/
  | syscall (name : Bytes)
  /-- The push of an integer. -/
  | pushInteger (value : Int)
  /-- The push of a truth value. -/
  | pushBool (value : Bool)
  /-- The push of a byte string. -/
  | pushBytes (data : Bytes)

/-- Writes a command behind what a builder has written. -/
def Command.write (builder : Builder) : Command → Builder
  | .plain op => builder.emitWith (.plain op) []
  | .ret => builder.emitWith .ret []
  | .pushData .one data =>
      builder.emitWith (.pushData .one) (UInt8.ofNat data.length :: data)
  | .pushData .two data =>
      builder.emitWith (.pushData .two) (Bytes.ofNat 2 data.length ++ data)
  | .pushData .four data =>
      builder.emitWith (.pushData .four) (Bytes.ofNat 4 data.length ++ data)
  | .jump kind offset =>
      builder.emitWith (.jump kind) (Number.TwosComplement.encodeFixed 2 offset)
  | .invoke kind hash => builder.emitWith (.invoke kind) hash.bytes
  | .syscall name => builder.emitWith .syscall (UInt8.ofNat name.length :: name)
  | .pushInteger value => builder.pushInteger value
  | .pushBool value => builder.pushBool value
  | .pushBytes data => builder.pushBytes data

/-- The push of a literal: a truth value, a string, bytes or an integer. -/
def pushLiteral (token : String) : Except StatementError Command :=
  if token = "true" then .ok (.pushBool true)
  else if token = "false" then .ok (.pushBool false)
  else match unquote? token with
    | some text => .ok (.pushBytes (Text.Utf8.ofString text))
    | none =>
      if Text.hasMarker token then (hexOperand token).map .pushBytes
      else match Text.integer? token with
        | some value => .ok (.pushInteger value)
        | none => .error (.operand token "integer, hex bytes, string or boolean")

/-- The push of exactly `count` bytes. -/
def pushCounted (count : Nat) (token : String) : Except StatementError Command := do
  let data ← hexOperand token
  if data.length ≠ count then throw (.operand token "exactly as many bytes as the opcode names")
  return .pushBytes data

/-- The command of an opcode and its only operand. -/
def withOperand (resolve : Resolver) (address : Nat) (op : Opcode) (token : String) :
    Except StatementError Command :=
  match op with
  | .plain op => .ok (.plain op)
  | .ret => .ok .ret
  | .pushData width => (dataOperand width token).map (.pushData width)
  | .jump kind => (offsetOperand resolve address token).map (.jump kind)
  | .invoke kind => (hashOperand token).map (.invoke kind)
  | .syscall => (nameOperand token).map .syscall

/-- The command of an opcode without operand. -/
def withoutOperand? : Opcode → Option Command
  | .plain op => some (.plain op)
  | .ret => some .ret
  | _ => none

/-- The count in a name of the form `PUSHBYTES` and a number from 1 to 75. -/
def countedPush? (name : String) : Option (Option Nat) :=
  let marker := "PUSHBYTES".toList
  let chars := name.toList
  if marker.isPrefixOf chars then
    let count := Text.natural? 256 (String.ofList (chars.drop marker.length))
    some (count.filter fun n => 1 ≤ n && n ≤ 75)
  else none

namespace Statement

/-- The number of operands does not fit. -/
def arityError (s : Statement) (expected : Nat) : StatementError :=
  .arity s.head.text expected s.operands.length

/-- The only operand of a statement. -/
def operand (s : Statement) : Except StatementError String :=
  match s.operands with
  | [token] => .ok token.text
  | _ => .error (s.arityError 1)

/-- The command of a statement at `address`. -/
def command (s : Statement) (resolve : Resolver) (address : Nat) :
    Except StatementError Command := do
  let name := s.head.text
  if name = "PUSH" then pushLiteral (← s.operand)
  else match countedPush? name with
    | some (some count) => pushCounted count (← s.operand)
    | some none => throw (.unknownInstruction name)
    | none =>
      match Opcode.ofMnemonic? name with
      | none => throw (.unknownInstruction name)
      | some op =>
        match withoutOperand? op with
        | some found => if s.operands.isEmpty then return found else throw (s.arityError 0)
        | none => withOperand resolve address op (← s.operand)

end Statement

end StackScript.Assembly
