import StackScript.Assembly.Statement
import StackScript.Text.Lines
import Std.Data.HashMap

/-!
# Assembling a source

A line defines any number of labels and then holds at most one statement. A source is assembled in
two passes over the same statements. `layout` finds the address of every label and the size of
every statement; a label that is not known yet stands for the jump itself. `Layout.emit` then
writes the instructions with every label resolved. Sizes do not depend on labels, so the addresses
of the two passes agree.

The first error in the order of lines is reported, all of the first pass before any of the second.
-/

namespace StackScript.Assembly

/-- What the first pass finds. -/
structure Layout where
  /-- The address of each label. -/
  labels : Std.HashMap String Nat := {}
  /-- The statements, the last one first. -/
  statements : List Statement := []
  /-- The number of bytes of the statements. -/
  size : Nat := 0

namespace Layout

/-- Labels known so far, with any other label standing for the jump itself. -/
def known (layout : Layout) (address : Nat) : Resolver :=
  fun label => .ok ((layout.labels[label]?).getD address)

/-- Labels, all of which must be defined. -/
def defined (layout : Layout) : Resolver :=
  fun label =>
    match layout.labels[label]? with
    | some target => .ok target
    | none => .error (.undefinedLabel label)

/-- Defines the labels in front of a line at the current address, and gives the other tokens. -/
def defineLabels (layout : Layout) (line : Nat) :
    List Token → Except SourceError (Layout × List Token)
  | [] => .ok (layout, [])
  | token :: rest =>
      match token.label? with
      | none => .ok (layout, token :: rest)
      | some label =>
        if layout.labels.contains label then
          .error (.statement ⟨line, token.column⟩ (.duplicateLabel label))
        else defineLabels { layout with labels := layout.labels.insert label layout.size } line rest

/-- The command of a statement, or its failure with its place. -/
def commandAt (s : Statement) (resolve : Resolver) (address : Nat) : Except SourceError Command :=
  match s.command resolve address with
  | .ok found => .ok found
  | .error cause => .error (.statement s.position cause)

/-- Measures a statement and puts it behind the others. -/
def addStatement (layout : Layout) (s : Statement) : Except SourceError Layout := do
  let found ← commandAt s (layout.known layout.size) layout.size
  return { layout with
    statements := s :: layout.statements
    size := layout.size + (found.write Builder.empty).offset }

/-- Takes in a line of the source. -/
def addLine (layout : Layout) (line : List Char × Nat) : Except SourceError Layout :=
  match tokenize line.1 with
  | .error column => .error (.unterminated ⟨line.2, column⟩)
  | .ok tokens => do
      let (layout, rest) ← layout.defineLabels line.2 tokens
      match rest with
      | [] => return layout
      | head :: operands => layout.addStatement ⟨line.2, head, operands⟩

/-- Writes a statement behind what has been written so far. -/
def emitStatement (layout : Layout) (builder : Builder) (s : Statement) :
    Except SourceError Builder := do
  let found ← commandAt s layout.defined builder.offset
  return found.write builder

/-- Writes the statements. -/
def emit (layout : Layout) : Except SourceError Script := do
  let builder ← layout.statements.reverse.foldlM layout.emitStatement Builder.empty
  return builder.script

end Layout

/-- The first pass. -/
def layout (source : String) : Except SourceError Layout :=
  ((Text.lines source).zipIdx 1).foldlM Layout.addLine {}

/-- Assembles a source into a script. -/
def assemble (source : String) : Except SourceError Script := do
  (← layout source).emit

end StackScript.Assembly
