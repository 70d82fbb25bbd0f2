/-!
# Lines of a text

A line ends at a line feed, and a carriage return right before the line feed belongs to the end of
the line. What follows the last line feed is a line of its own if it is not empty, and keeps a
carriage return at its end.
-/

namespace StackScript.Text

/-- The text of a line that ended at a line feed, given in reverse: one carriage return at its end
is dropped. -/
def closeLine : (reversed : List Char) → List Char
  | '\r' :: chars => chars.reverse
  | chars => chars.reverse

/-- Puts the remaining lines, last one first, in front of `done`; `current` is the line begun,
in reverse. -/
def linesOnto (done : List (List Char)) (current : List Char) : List Char → List (List Char)
  | [] => if current.isEmpty then done else current.reverse :: done
  | '\n' :: rest => linesOnto (closeLine current :: done) [] rest
  | c :: rest => linesOnto done (c :: current) rest

/-- The lines of a text in order. -/
def lines (text : String) : List (List Char) := (linesOnto [] [] text.toList).reverse

end StackScript.Text
