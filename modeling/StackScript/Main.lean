import StackScript.Console.Program

/-!
# The executable

Reads the arguments, the environment and files, and writes what the program says: results to the
standard output, the log to the standard error.
-/

namespace StackScript.Console

/-- The number of a system error, which may be given as its negative in 32 bits. -/
def errorNumber (code : UInt32) : UInt32 := if code < 0x80000000 then code else -code

/-- What the system says about a file that cannot be read. -/
def systemReason : IO.Error → String
  | .noFileOrDirectory _ code details | .inappropriateType _ code details
  | .permissionDenied _ code details => s!"{details.capitalize} (os error {errorNumber code})"
  | e => toString e

/-- The bytes of a file, or what the system says. -/
def readBytes (path : String) : IO (Except String Bytes) := do
  try
    let contents ← IO.FS.readBinFile path
    return .ok contents.toList
  catch e => return .error (systemReason e)

/-- Writes what a program wrote. -/
def write (output : Output) : IO Unit :=
  match output with
  | .log level message => IO.eprint (logText level message)
  | .line text => IO.println text

end StackScript.Console

/-- Runs the program. The only file it may read is the one its first argument names. -/
def main (arguments : List String) : IO UInt32 := do
  let setting ← IO.getEnv StackScript.Console.levelVariable
  let contents ← match arguments with
    | [] => pure (.error "")
    | path :: _ => StackScript.Console.readBytes path
  let outcome := StackScript.Console.main "script_vm" arguments setting fun _ => contents
  outcome.output.forM StackScript.Console.write
  return UInt32.ofNat outcome.exit
