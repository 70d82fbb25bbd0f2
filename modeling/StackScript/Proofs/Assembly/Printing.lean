import StackScript.Assembly.Listing
import StackScript.Proofs.Reading

/-!
# Listings show what the machine reads

The listing reads instructions for itself: it picks a reader for the operand by the kind of the
operand, where the machine has a reader for each opcode. `Instruction.text` is how an instruction is
written as a statement. Main statement: what the listing reads is the text of the instruction that
the machine reads, up to the same cursor and with the same failures (`Assembly.runAt_readText`).
-/

namespace StackScript

open Assembly

namespace Instruction

/-- The name of an instruction in a statement. -/
def name : Instruction → String
  | .pushBytes data => "PUSHBYTES" ++ Text.decimal data.length
  | .pushData width _ => (Opcode.pushData width).mnemonic
  | .jump kind _ => (Opcode.jump kind).mnemonic
  | .invoke kind _ => (Opcode.invoke kind).mnemonic
  | .syscall _ => Opcode.syscall.mnemonic
  | .ret => Opcode.ret.mnemonic
  | .plain op => (Opcode.plain op).mnemonic

/-- The operand of an instruction in a statement. -/
def operandText? : Instruction → Option String
  | .pushBytes data | .pushData _ data => some (Text.Hex.encodeMarked data)
  | .jump _ offset => some (toString offset)
  | .invoke _ hash => some ("0x" ++ hash.render)
  | .syscall name => some ("\"" ++ Text.Utf8.decodeLossy name ++ "\"")
  | .ret | .plain _ => none

/-- An instruction as a statement of the assembler. -/
def text (found : Instruction) : String :=
  match found.operandText? with
  | none => found.name
  | some operand => statementText found.name operand

end Instruction

namespace Assembly

/-- The one reader finds the text of what the other finds, and both move the cursor alike. -/
def PrintsAs (shown : Reader String) (found : Reader Instruction) : Prop :=
  ∀ script cursor, shown.runAt script cursor = match found.runAt script cursor with
    | .ok instruction next => .ok instruction.text next
    | .error cause next => .error cause next

theorem PrintsAs.pure {text : String} {found : Instruction} (h : found.text = text) :
    PrintsAs (pure text) (pure found) := by
  intro script cursor
  rw [Reader.runAt_pure, Reader.runAt_pure, ← h]

theorem PrintsAs.throw (cause : DecodeError) : PrintsAs (throw cause) (throw cause) := fun _ _ => rfl

theorem PrintsAs.bind {α : Type} (reader : Reader α) {f : α → Reader String}
    {g : α → Reader Instruction} (h : ∀ a, PrintsAs (f a) (g a)) :
    PrintsAs (reader >>= f) (reader >>= g) := by
  intro script cursor
  rw [Reader.runAt_bind, Reader.runAt_bind]
  cases reader.runAt script cursor with
  | ok a next => exact h a script next
  | error cause next => rfl

/-- An opcode with an operand: it is read in the same way, and then shown behind the name. -/
theorem printsAs_operand {α : Type} (reader : Reader α) {shown : α → String}
    {found : α → Instruction} {name : String} (h : ∀ a, (found a).text = statementText name (shown a)) :
    PrintsAs ((do return shown (← reader)) >>= fun operand => pure (statementText name operand))
      (do return found (← reader)) := by
  rw [bind_assoc]
  refine .bind reader fun a => ?_
  rw [pure_bind]
  exact .pure (h a)

/-- An opcode of the table with its operand. -/
theorem printsAs_opcodeText (op : Opcode) : PrintsAs (opcodeText op) (Instruction.readArguments op) := by
  cases op with
  | plain op => exact .pure rfl
  | ret => exact .pure rfl
  | pushData width =>
    cases width with
    | one => exact printsAs_operand Reader.data1 fun _ => rfl
    | two => exact printsAs_operand Reader.data2 fun _ => rfl
    | four => exact printsAs_operand Reader.data4 fun _ => rfl
  | jump kind => exact printsAs_operand (Reader.signed 2) fun _ => rfl
  | invoke kind => exact printsAs_operand Reader.hash fun _ => rfl
  | syscall => exact printsAs_operand (Reader.varBytes maxNameLength) fun _ => rfl

/-- As many bytes as the opcode says. -/
theorem printsAs_pushBytes (count : Nat) :
    PrintsAs (do
        let data ← Reader.exact count
        return statementText ("PUSHBYTES" ++ Text.decimal count) (Text.Hex.encodeMarked data))
      (do return .pushBytes (← Reader.exact count)) := by
  intro script cursor
  rw [Reader.runAt_bind, Reader.runAt_bind, Reader.runAt_exact]
  cases hslice : script.slice? cursor count with
  | none => rfl
  | some data =>
    rw [← Script.length_of_slice? hslice]
    rfl

/-- **The listing shows what the machine reads.** -/
theorem runAt_readText (script : Script) (cursor : Nat) :
    readText.runAt script cursor = match Instruction.decodeAt script cursor with
      | .ok found next => .ok found.text next
      | .error cause next => .error cause next := by
  have h : PrintsAs readText Instruction.read := by
    refine PrintsAs.bind get fun offset => PrintsAs.bind Reader.byte fun byte => ?_
    unfold Instruction.readOperand
    split
    · exact printsAs_pushBytes byte.toNat
    · cases Opcode.ofByte? byte with
      | some op => exact printsAs_opcodeText op
      | none => exact .throw _
  exact h script cursor

end Assembly

end StackScript
