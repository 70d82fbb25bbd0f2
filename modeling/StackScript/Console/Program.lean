import StackScript.Assembly.Diagnostic
import StackScript.Console.Session

/-!
# The command line

The program as a function of its arguments, of the log level the user set, and of the files it may
read: what it writes and its exit status. The status is 0 if the script halts, 1 if it faults or
the input is bad, and 2 if the budget is spent.
-/

namespace StackScript.Console

/-- The files a program may read: the bytes under a path, or what the system says. -/
abbrev Files := String → Except String Bytes

/-- The environment variable that sets the level of the log. -/
def levelVariable : String := "SCRIPT_VM_LOG"

/-- An outcome that consists of messages only. -/
def refusal (exit : Nat) (messages : List (Level × String)) : Outcome :=
  ⟨exit, (messages.map fun (level, message) => Output.log level message).toArray⟩

/-- The text of a file. -/
def readText (files : Files) (path : String) : Except Fault String :=
  match files path with
  | .error reason => .error (.file path reason)
  | .ok bytes =>
    match Text.Utf8.decode? bytes with
    | some text => .ok text
    | none => .error (.file path "stream did not contain valid UTF-8")

/-- The script given as digits. -/
def scriptOfHex (input : String) : Except Outcome Script :=
  match Text.Hex.decode (Text.dropMarker (Text.trimBlank input)) with
  | .ok bytes => .ok (.ofBytes bytes)
  | .error cause => .error (refusal 1 [(.error, "Invalid hex script: " ++ cause.message)])

/-- Assembles a source called `name`, and logs why it fails. -/
def assembleNamed (name source : String) : Except Fault Script × List (Level × String) :=
  match (Assembly.assemble source).mapError Fault.source with
  | .ok script => (.ok script, [])
  | .error fault => (.error fault, [(.error, Assembly.report name source fault)])

/-- Assembles a source file. That it cannot be read is not logged here. -/
def assembleFile (files : Files) (path : String) : Except Fault Script × List (Level × String) :=
  match readText files path with
  | .ok source => assembleNamed path source
  | .error fault => (.error fault, [])

/-- The script of a source file. -/
def scriptOfFile (files : Files) (path : String) : Except Outcome Script :=
  match assembleFile files path with
  | (.ok script, _) => .ok script
  | (.error fault, logged) =>
      .error (refusal 1 (logged ++ [(.error, "Assembly failed: " ++ fault.message)]))

/-- Runs the program on arguments that have been understood. -/
def runOptions (files : Files) (options : Options) : Outcome :=
  let found := if options.hex then scriptOfHex options.input else scriptOfFile files options.input
  match found with
  | .ok script => runScript options script
  | .error outcome => outcome

/-- Runs the program on the arguments behind its own name. -/
def runArguments (program : String) (files : Files) : List String → Outcome
  | [] => refusal 1 [(.info, usage program)]
  | input :: rest =>
      if input = "--help" ∨ input = "-h" then refusal 0 [(.info, usage program)]
      else match Options.parseRest { input } rest with
        | .ok options => runOptions files options
        | .error (.unexpected argument) =>
            refusal 1 [(.error, (OptionError.unexpected argument).message), (.info, usage program)]
        | .error cause => refusal 1 [(.error, cause.message)]

/-- The level the user set, and a complaint if it is none. -/
def chosenLevel : Option String → Level × List Output
  | none => (default, [])
  | some setting =>
    match Level.parse setting with
    | .ok level => (level, [])
    | .error reason => (default, [.log .warn (levelVariable ++ ": " ++ reason)])

/-- Whether something is written at all where `least` is the level chosen. -/
def isWritten (least : Level) : Output → Bool
  | .log level _ => least.admits level
  | .line _ => true

/-- The program: its arguments behind its own name, the level the user set, and the files. -/
def main (program : String) (arguments : List String) (setting : Option String) (files : Files) :
    Outcome :=
  let (least, complaint) := chosenLevel setting
  let outcome := runArguments program files arguments
  ⟨outcome.exit, (complaint.toArray ++ outcome.output).filter (isWritten least)⟩

/-- A message as the log shows it. -/
def logText (level : Level) (message : String) : String := s!"[{level.name}] {message}\n"

end StackScript.Console
