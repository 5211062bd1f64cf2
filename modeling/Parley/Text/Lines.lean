import Parley.Text.Basic

/-!
# Lines of a text

A line ends at a line feed; one carriage return right before the line feed
belongs to the line end.  What follows the last line feed is a line of its own
unless it is empty, and there a carriage return is kept.
-/

namespace Parley.Text

/-- The line whose characters were collected in reverse, less one carriage
return before the line feed that ends it. -/
def endedLine : Chars → Chars
  | '\r' :: reversed => reversed.reverse
  | reversed => reversed.reverse

/-- The lines of a text, where the characters already read of the first line
are given in reverse. -/
def linesFrom (reversed : Chars) : Chars → List Chars
  | [] => if reversed.isEmpty then [] else [reversed.reverse]
  | c :: rest =>
      if c = '\n' then endedLine reversed :: linesFrom [] rest
      else linesFrom (c :: reversed) rest

/-- The lines of a text without their line ends. -/
def lines (text : Chars) : List Chars :=
  linesFrom [] text

@[simp]
theorem lines_nil : lines [] = [] :=
  rfl

/-- The lines of a string, the form in which scripts are compiled. -/
def linesOf (text : String) : List String :=
  (lines text.toList).map String.ofList

end Parley.Text
