import StackScript.Operation.Containers
import StackScript.Operation.Numbers
import StackScript.Operation.Splice
import StackScript.Operation.Stacks
import StackScript.Operation.Verification

/-!
# Instructions on the workspace

What the instructions without operand do to the workspace.
-/

namespace StackScript

/-- What an instruction without operand does. -/
def Plain.run (verifier : Verifier) : Plain → Operation Unit
  | .constant c => c.run
  | .nop => pure ()
  | .stack op => op.run
  | .splice op => op.run
  | .number op => op.run
  | .crypto op => op.run verifier
  | .container op => op.run

end StackScript
