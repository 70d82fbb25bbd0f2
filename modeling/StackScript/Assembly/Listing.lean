import StackScript.Opcode
import StackScript.Script

/-!
# Listings

An instruction is shown as a statement of the assembler. What follows its opcode is read by the
kind of the operand. A listing has a line for each instruction of a script, with the offset as a
label in front.
-/

namespace StackScript.Assembly

/-- A statement of a name and an operand. -/
def statementText (name operand : String) : String := name ++ " " ++ operand

/-- The operand of the given kind, as a statement shows it. The name of a host call is shown as
text, ill-formed stretches replaced. -/
def operandText : OperandKind → Reader String
  | .offset => do
      let offset ← Reader.signed 2
      return toString offset
  | .hash => do
      let hash ← Reader.hash
      return "0x" ++ hash.render
  | .name => do
      let name ← Reader.varBytes maxNameLength
      return "\"" ++ Text.Utf8.decodeLossy name ++ "\""
  | .data .one => return Text.Hex.encodeMarked (← Reader.data1)
  | .data .two => return Text.Hex.encodeMarked (← Reader.data2)
  | .data .four => return Text.Hex.encodeMarked (← Reader.data4)

/-- The rest of an instruction found in the table, as a statement. -/
def opcodeText (op : Opcode) : Reader String :=
  match op.operand? with
  | none => return op.mnemonic
  | some kind => return statementText op.mnemonic (← operandText kind)

/-- The instruction at the cursor as a statement. -/
def readText : Reader String := do
  let offset ← get
  let byte ← Reader.byte
  if isPushBytes byte then
    let data ← Reader.exact byte.toNat
    return statementText ("PUSHBYTES" ++ Text.decimal byte.toNat) (Text.Hex.encodeMarked data)
  match Opcode.ofByte? byte with
  | some op => opcodeText op
  | none => throw (.invalidOpcode byte offset)

/-- The instruction at an offset as a statement. -/
def textAt (script : Script) (offset : Nat) : Except DecodeError String :=
  match readText.runAt script offset with
  | .ok text _ => .ok text
  | .error cause _ => .error cause

/-- A line of a listing. -/
def listingLine (offset : Nat) (text : String) : String :=
  Text.fourDigits offset ++ ": " ++ text ++ "\n"

/-- Puts the lines for at most `count` instructions from a cursor on behind `done`. -/
def listingOnto (script : Script) (done : String) :
    (count cursor : Nat) → Except DecodeError String
  | 0, _ => .ok done
  | count + 1, cursor =>
      if script.size ≤ cursor then .ok done
      else match readText.runAt script cursor with
        | .ok text next => listingOnto script (done ++ listingLine cursor text) count next
        | .error cause _ => .error cause

/-- The listing of a script. It has no more instructions than bytes. -/
def listing (script : Script) : Except DecodeError String :=
  listingOnto script "" script.size 0

end StackScript.Assembly
