/-!
# Lines

A line feed ends a line, and a carriage return directly before it belongs to the line end.  What
follows the last line feed is a line if it is not empty, and keeps its carriage returns.
-/

namespace Tiny.Text

/-- The letters of an ended line, given in reverse. -/
def endedLine : List Char → List Char
  | '\r' :: letters => letters.reverse
  | letters => letters.reverse

/-- The lines of a text behind the letters `line`, which are in reverse. -/
def linesFrom (line : List Char) : List Char → List (List Char)
  | [] => if line.isEmpty then [] else [line.reverse]
  | c :: rest =>
    if c = '\n' then endedLine line :: linesFrom [] rest
    else linesFrom (c :: line) rest

/-- The lines of a text, without their ends. -/
def lines (text : String) : List (List Char) :=
  linesFrom [] text.toList

end Tiny.Text
