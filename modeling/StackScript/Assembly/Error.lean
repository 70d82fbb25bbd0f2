import StackScript.Script

/-!
# Errors of the assembler

A statement fails for a cause. The error of a source adds the place: the line, counted from 1, and
the column of the token at fault, counted in bytes from 1.
-/

namespace StackScript

/-- Why a text is no name of a host call. -/
inductive NameError where
  /-- It is empty or not ASCII. -/
  | invalid (name : String)
  /-- It has too many bytes. -/
  | tooLong (length max : Nat)
  deriving DecidableEq, Repr

/-- The wording of a name that is empty or not ASCII. -/
def invalidNameMessage (name : String) : String := s!"invalid syscall name {Text.quoted name}"

/-- The wording of a cause. -/
def NameError.message : NameError → String
  | .invalid name => invalidNameMessage name
  | .tooLong length max => nameTooLongMessage length max

namespace Assembly

/-- Why a statement cannot be assembled. -/
inductive StatementError where
  /-- No instruction has this name. -/
  | unknownInstruction (name : String)
  /-- The number of operands is not the one the instruction takes. -/
  | arity (instruction : String) (expected actual : Nat)
  /-- An operand is not of the expected form. -/
  | operand (token expected : String)
  /-- The name of a host call is not allowed. -/
  | callName (cause : NameError)
  /-- The distance of a jump needs more than 16 bits. -/
  | jumpRange (offset : Int)
  /-- A label has been defined before. -/
  | duplicateLabel (label : String)
  /-- A label is not defined anywhere. -/
  | undefinedLabel (label : String)
  deriving DecidableEq, Repr

/-- The wording of a cause. -/
def StatementError.message : StatementError → String
  | .unknownInstruction name => s!"invalid instruction name: {name}"
  | .arity instruction expected actual =>
      s!"{instruction} expects {expected} operand(s), got {actual}"
  | .operand token expected => s!"invalid operand {token}: expected {expected}"
  | .callName cause => cause.message
  | .jumpRange offset => s!"jump offset {offset} does not fit in 16 bits"
  | .duplicateLabel label => s!"duplicate label: {label}"
  | .undefinedLabel label => s!"undefined label: {label}"

/-- A place in a source: line and column, both counted from 1, the column in bytes. -/
structure Position where
  /-- The line. -/
  line : Nat
  /-- The column. -/
  column : Nat
  deriving DecidableEq, Repr

/-- A text with the place it is about in front. -/
def Position.annotate (position : Position) (text : String) : String :=
  s!"line {position.line}:{position.column}: {text}"

/-- Why a source cannot be assembled. -/
inductive SourceError where
  /-- A quote is not closed on its line; the place is the start of the token it is in. -/
  | unterminated (position : Position)
  /-- A statement or a label fails. -/
  | statement (position : Position) (cause : StatementError)
  deriving DecidableEq, Repr

/-- The place of an error. -/
def SourceError.position : SourceError → Position
  | .unterminated position => position
  | .statement position _ => position

/-- The wording of an error without its place. -/
def SourceError.reason : SourceError → String
  | .unterminated _ => "unterminated string literal (missing closing quote)"
  | .statement _ cause => cause.message

/-- The wording of an error. -/
def SourceError.message (e : SourceError) : String := e.position.annotate e.reason

end Assembly

end StackScript
