import StackScript.Assembly.Error
import StackScript.Stack
import StackScript.Text.Decimal

/-!
# Faults

Whatever stops a run early, or keeps a script from being loaded, is a fault, kept as a cause. Faults
that concern an operand name the instruction that took it.
-/

namespace StackScript

/-- Why a run stopped early, or could not start. -/
inductive Fault where
  /-- The bytes at the cursor are no instruction. -/
  | decode (cause : DecodeError)
  /-- A host call has a name that is not ASCII. -/
  | invalidName (name : String)
  /-- A frame that may only push met another instruction. -/
  | pushOnly (instruction : String)
  /-- A jump leads out of the script. -/
  | jumpTarget (target : Int) (size : Nat)
  /-- There is no frame. -/
  | noCurrentFrame
  /-- There is no frame below the current one. -/
  | noCallingFrame
  /-- The host provides no script table. -/
  | noScriptTable
  /-- The script table has no such script. -/
  | scriptNotFound (hash : ScriptHash)
  /-- No host call has this name. -/
  | unknownCall (name : String)
  /-- A host call failed. -/
  | callFailed (name reason : String)
  /-- The host provides no script container. -/
  | noContainer
  /-- A stack is not deep enough. -/
  | depth (cause : DepthError)
  /-- An item is not of the type an instruction needs. -/
  | typeMismatch (instruction expected actual : String)
  /-- An integer does not fit into 32 bits. -/
  | overflow (instruction : String) (value : Int)
  /-- A count, index or depth is negative. -/
  | negative (instruction : String) (value : Int)
  /-- A count is outside its range. -/
  | argumentRange (instruction : String) (value : Int) (max : Nat)
  /-- An index is beyond the last element. -/
  | indexRange (index length : Nat)
  /-- A division by zero. -/
  | divisionByZero
  /-- The numbers of signatures and keys do not fit each other. -/
  | multisig (m n : Int)
  /-- A host has no room for a container of that size. -/
  | allocation (count : Nat)
  /-- A source cannot be assembled. -/
  | source (cause : Assembly.SourceError)
  /-- A file cannot be read, for what the system says. -/
  | file (path reason : String)
  deriving DecidableEq

/-- The wording of a fault. -/
def Fault.message : Fault → String
  | .decode cause => cause.message
  | .invalidName name => invalidNameMessage name
  | .pushOnly instruction => s!"{instruction} is not allowed in a push-only script"
  | .jumpTarget target size => s!"jump target {target} outside script of length {size}"
  | .noCurrentFrame => "invocation stack is empty"
  | .noCallingFrame => "no calling context"
  | .noScriptTable => "no script table configured"
  | .scriptNotFound hash => s!"script {hash.render} not found"
  | .unknownCall name => s!"unknown syscall {name}"
  | .callFailed name reason => s!"syscall {name} failed: {reason}"
  | .noContainer => "no script container"
  | .depth cause => cause.message
  | .typeMismatch instruction expected actual =>
      s!"{instruction} expected {expected} but got {actual}"
  | .overflow instruction value =>
      s!"{instruction}: integer {Text.integer value} does not fit in 32 bits"
  | .negative instruction value => s!"{instruction}: negative argument {value}"
  | .argumentRange instruction value max =>
      s!"{instruction}: argument {value} out of range 0..={max}"
  | .indexRange index length => s!"index {index} out of bounds for container of length {length}"
  | .divisionByZero => "division by zero"
  | .multisig m n => s!"invalid multisig parameters m={m} n={n}"
  | .allocation count => s!"cannot allocate container of {count} items"
  | .source cause => cause.message
  | .file path reason => s!"io error on {path}: {reason}"

/-- The error of a source behind a fault, which has a place. -/
def Fault.located? : Fault → Option Assembly.SourceError
  | .source cause => some cause
  | _ => none

theorem Fault.located?_eq_some_iff {fault : Fault} {error : Assembly.SourceError} :
    fault.located? = some error ↔ fault = .source error := by
  constructor
  · intro h
    cases fault with
    | source cause => rw [Option.some.inj h]
    | _ => cases h
  · rintro rfl
    rfl

end StackScript
