import StackScript.Text.Numeral

/-!
# Options of the command line

The first argument is the script, the others are options in any order. An option that is given
twice counts the second time, except that breakpoints add up.
-/

namespace StackScript.Console

/-- What the user asks for. -/
structure Options where
  /-- The script: a file, or digits. -/
  input : String
  /-- Whether the script is given as digits. -/
  hex : Bool := false
  /-- Whether the script may only push. -/
  pushOnly : Bool := false
  /-- The breakpoints. -/
  breakpoints : List Nat := []
  /-- The greatest number of steps. -/
  maxSteps : Nat := 1000000
  /-- Whether every instruction is shown before it is performed. -/
  trace : Bool := false

/-- Why the arguments cannot be understood. -/
inductive OptionError where
  /-- An option stands at the end without its value. -/
  | missingValue (flag : String)
  /-- A breakpoint is no offset of 32 bits. -/
  | breakpoint (value : String)
  /-- A budget is no positive number of 64 bits. -/
  | budget (value : String)
  /-- An argument is no option. -/
  | unexpected (argument : String)
  deriving DecidableEq, Repr

/-- The wording of a cause. -/
def OptionError.message : OptionError → String
  | .missingValue flag => flag ++ " requires an argument"
  | .breakpoint value => "Invalid breakpoint offset: '" ++ value ++ "'"
  | .budget value => "Step budget must be a positive number, got '" ++ value ++ "'"
  | .unexpected argument => "Unexpected argument: " ++ argument ++ "\n"

namespace Options

/-- Adds a breakpoint. -/
def addBreakpoint (options : Options) (value : String) : Except OptionError Options :=
  match Text.natural? 0x100000000 value with
  | some offset => .ok { options with breakpoints := options.breakpoints ++ [offset] }
  | none => .error (.breakpoint value)

/-- Sets the budget. -/
def setBudget (options : Options) (value : String) : Except OptionError Options :=
  match Text.natural? 0x10000000000000000 value with
  | some steps =>
      if 0 < steps then .ok { options with maxSteps := steps } else .error (.budget value)
  | none => .error (.budget value)

/-- Takes in the arguments behind the script. -/
def parseRest (options : Options) : List String → Except OptionError Options
  | [] => .ok options
  | "--hex" :: rest => parseRest { options with hex := true } rest
  | "--push-only" :: rest => parseRest { options with pushOnly := true } rest
  | "--trace" :: rest => parseRest { options with trace := true } rest
  | ["--break"] => .error (.missingValue "--break")
  | "--break" :: value :: rest =>
      match options.addBreakpoint value with
      | .ok options => parseRest options rest
      | .error cause => .error cause
  | ["--max-steps"] => .error (.missingValue "--max-steps")
  | "--max-steps" :: value :: rest =>
      match options.setBudget value with
      | .ok options => parseRest options rest
      | .error cause => .error cause
  | argument :: _ => .error (.unexpected argument)

end Options

/-- What the program says about itself. -/
def usage (program : String) : String :=
  "Script VM\n\n" ++
  "USAGE:\n    " ++ program ++ " <script> [OPTIONS]\n\n" ++
  "ARGS:\n" ++
  "    <script>    Assembly source file, or hex bytecode with --hex\n\n" ++
  "OPTIONS:\n" ++
  "    --hex                Treat <script> as hex-encoded bytecode\n" ++
  "    --push-only          Load the script as a push-only frame\n" ++
  "    --break <offset>     Pause and dump the stack at <offset> (repeatable)\n" ++
  "    --max-steps <n>      Abort after <n> opcodes (defaults to 1,000,000)\n" ++
  "    --trace              Log every instruction before it executes\n" ++
  "    -h, --help           Print this help message\n\n" ++
  "ENVIRONMENT:\n" ++
  "    SCRIPT_VM_LOG        Minimum log level: debug, info, warn or error\n\n" ++
  "EXAMPLES:\n" ++
  "    # Run an assembly file\n    " ++ program ++ " add.asm\n\n" ++
  "    # Run raw bytecode (PUSH2 PUSH3 ADD), tracing every step\n    " ++ program ++
  " 525393 --hex --trace\n\n" ++
  "    # Pause at offset 4 and stop after 100 opcodes\n    " ++ program ++
  " loop.asm --break 4 --max-steps 100\n"

end StackScript.Console
