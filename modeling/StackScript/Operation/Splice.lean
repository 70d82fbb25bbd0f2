import StackScript.Opcode
import StackScript.Workspace

/-!
# Operations on byte strings

Parts that reach beyond the end are cut short, except that the right part of a string must lie
within it.
-/

namespace StackScript

/-- What an operation on byte strings does. -/
def SpliceOp.run (op : SpliceOp) : Operation Unit :=
  match op with
  | .cat => do
      let b ← Operation.popBytes op.mnemonic
      let a ← Operation.popBytes op.mnemonic
      Operation.pushBytes (a ++ b)
  | .substr => do
      let count ← Operation.popCount op.mnemonic
      let start ← Operation.popCount op.mnemonic
      let data ← Operation.popBytes op.mnemonic
      Operation.pushBytes (data.slice start count)
  | .left => do
      let count ← Operation.popCount op.mnemonic
      let data ← Operation.popBytes op.mnemonic
      Operation.pushBytes (data.slice 0 count)
  | .right => do
      let count ← Operation.popCount op.mnemonic
      let data ← Operation.popBytes op.mnemonic
      if data.length < count then
        throw (.argumentRange op.mnemonic (Int.ofNat count) data.length)
      Operation.pushBytes (data.slice (data.length - count) count)
  | .size => do
      let item ← Operation.pop
      match item.size? with
      | some count => Operation.pushNat count
      | none => Operation.mismatch op.mnemonic "ByteArray" item

end StackScript
