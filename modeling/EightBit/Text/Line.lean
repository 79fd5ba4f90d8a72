/-!
Lines of a text. A line ends at a line feed, which is not part of it, nor is a carriage return right
before the line feed. What follows the last line feed is a line only if it is not empty.
-/

namespace EightBit.Text

/-- A line, given last character first, without the carriage return that may end it. -/
def endLine : List Char → List Char
  | '\r' :: line => line.reverse
  | line => line.reverse

/-- The lines of a text of which `line`, last character first, has already been read. -/
def linesFrom (line : List Char) : List Char → List (List Char)
  | [] => if line.isEmpty then [] else [line.reverse]
  | c :: rest =>
      if c = '\n' then endLine line :: linesFrom [] rest else linesFrom (c :: line) rest

def lines (text : List Char) : List (List Char) :=
  linesFrom [] text

end EightBit.Text
