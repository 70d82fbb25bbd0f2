import StackScript.Opcode
import StackScript.Workspace

/-!
# Operations on the stacks

The indexed operations take a depth off the stack first, and then count from the item that is the
top one after that.
-/

namespace StackScript

/-- What a stack operation does. -/
def StackOp.run (op : StackOp) : Operation Unit :=
  match op with
  | .dupFromAlt => do
      let item ← Operation.ofAccess (Stack.peek (← get).alt 0)
      Operation.push item
  | .toAlt => do
      let item ← Operation.pop
      modify fun w => { w with alt := item :: w.alt }
  | .fromAlt => do
      let (item, rest) ← Operation.ofAccess (Stack.pop (← get).alt)
      modify fun w => { w with alt := rest }
      Operation.push item
  | .xdrop => do
      let n ← Operation.popCount op.mnemonic
      let _ ← Operation.remove n
  | .xswap => do
      let n ← Operation.popCount op.mnemonic
      if n = 0 then return
      let deep ← Operation.peek n
      let top ← Operation.peek 0
      Operation.replace 0 deep
      Operation.replace n top
  | .xtuck => do
      let n ← Operation.popInt32 op.mnemonic
      if n ≤ 0 then throw (.argumentRange op.mnemonic n (← Operation.depth))
      let top ← Operation.peek 0
      Operation.insert n.toNat top
  | .depth => do
      let n ← Operation.depth
      Operation.pushNat n
  | .drop => do
      let _ ← Operation.pop
  | .dup => do
      let item ← Operation.peek 0
      Operation.push item
  | .nip => do
      let _ ← Operation.remove 1
  | .over => do
      let item ← Operation.peek 1
      Operation.push item
  | .pick => do
      let n ← Operation.popCount op.mnemonic
      let item ← Operation.peek n
      Operation.push item
  | .roll => do
      let n ← Operation.popCount op.mnemonic
      if n = 0 then return
      let item ← Operation.remove n
      Operation.push item
  | .rot => do
      let item ← Operation.remove 2
      Operation.push item
  | .swap => do
      let item ← Operation.remove 1
      Operation.push item
  | .tuck => do
      let item ← Operation.peek 0
      Operation.insert 2 item

/-- What a constant does: it is pushed. -/
def Constant.run : Constant → Operation Unit
  | .empty => Operation.pushBytes []
  | .minusOne => Operation.pushInteger (-1)
  | .small n => Operation.pushInteger (Int.ofNat n.val + 1)

end StackScript
