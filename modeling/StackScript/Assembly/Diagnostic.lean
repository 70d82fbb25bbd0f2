import StackScript.Fault
import StackScript.Text.Lines
import StackScript.Text.Numeral

/-!
# Diagnostics

An error of a source is shown with the file it is in, the line it is on, and a caret below the
column where the token at fault starts. A fault without a place is told in words only.
-/

namespace StackScript.Assembly

/-- A line without the carriage returns at its end. -/
def dropReturns (line : List Char) : List Char := (line.reverse.dropWhile (· == '\r')).reverse

/-- The echo of a source line with a caret below a column. -/
def echoLine (line : List Char) (position : Position) : String :=
  "  |\n" ++ Text.fourColumns position.line ++ " | " ++ String.ofList (dropReturns line) ++ "\n" ++
    "  | " ++ String.ofList (List.replicate (position.column - 1) ' ') ++ "^\n"

/-- The diagnostic of an error in a source called `file`. -/
def diagnostic (file source : String) (e : SourceError) : String :=
  let position := e.position
  let echo := match (Text.lines source)[position.line - 1]? with
    | some line => echoLine line position
    | none => ""
  s!"error: {e.reason}\n --> {file}:{position.line}:{position.column}\n" ++ echo

/-- What is told of a fault in a source called `file`. -/
def report (file source : String) (fault : Fault) : String :=
  match fault.located? with
  | some error => diagnostic file source error
  | none => s!"{file}: {fault.message}"

end StackScript.Assembly
