import StackScript.Text.Blank

/-!
# Levels of the log

A message is written if its level is at least the one the user chose.
-/

namespace StackScript.Console

/-- How much a message matters. -/
inductive Level where
  | debug
  | info
  | warn
  | error
  deriving DecidableEq, Repr

namespace Level

instance : Inhabited Level := ⟨.info⟩

/-- The place of a level in their order. -/
def rank : Level → Nat
  | .debug => 0
  | .info => 1
  | .warn => 2
  | .error => 3

/-- The name of a level. -/
def name : Level → String
  | .debug => "DEBUG"
  | .info => "INFO"
  | .warn => "WARN"
  | .error => "ERROR"

/-- Whether messages of `level` are written where `least` was chosen. -/
def admits (least level : Level) : Bool := least.rank ≤ level.rank

/-- A text without blanks at its ends and with ASCII letters in lower case. -/
def normalize (text : String) : String :=
  String.ofList ((Text.trimBlank text).toList.map Char.toLower)

/-- The level a user names, or the reason why there is none. -/
def parse (text : String) : Except String Level :=
  match normalize text with
  | "debug" | "trace" => .ok .debug
  | "info" => .ok .info
  | "warn" | "warning" => .ok .warn
  | "error" => .ok .error
  | other => .error ("unknown log level '" ++ other ++ "'")

end Level

end StackScript.Console
