import Parley.Value
import Parley.Text.Basic

/-!
# Literals

A literal is read as the first of these that fits: an integer, a floating-point
number, a truth value in any case, a text.  One pair of surrounding double
quotes is taken off a text.  Words that some readers take for numbers, such as
an infinity written out, are texts here: a number holds at least one digit and
nothing but digits, points, signs and exponent marks.
-/

namespace Parley.Literal

open Parley.Text

/-- Take off one pair of surrounding double quotes. -/
def dropQuotes (raw : Chars) : Chars :=
  match raw with
  | '"' :: rest => if rest.getLast? = some '"' then rest.dropLast else raw
  | _ => raw

/-- The characters of a floating-point numeral. -/
def isNumeralChar (c : Char) : Bool :=
  c.isDigit || c == '.' || c == '-' || c == '+' || c == 'e' || c == 'E'

/-- Whether a text may be a floating-point numeral. -/
def isNumeralShaped (raw : Chars) : Bool :=
  raw.any Char.isDigit && raw.all isNumeralChar

/-- Read a text as a floating-point number. -/
def readFloat? (raw : Chars) : Option Number.Binary64 :=
  if isNumeralShaped raw then Number.Binary64.read? raw else none

/-- Read a truth value, whatever the case of its letters. -/
def readBool? (raw : Chars) : Option Bool :=
  let lower := raw.map Char.toLower
  if lower = "true".toList then some true
  else if lower = "false".toList then some false
  else none

/-- Read a literal; blanks around it do not count. -/
def read (raw : Chars) : Value :=
  let trimmed := trim raw
  match Number.readInt64? trimmed with
  | some value => .integer value
  | none =>
      match readFloat? trimmed with
      | some value => .float value
      | none =>
          match readBool? trimmed with
          | some value => .boolean value
          | none => .text (String.ofList (dropQuotes trimmed))

@[simp]
theorem dropQuotes_nil : dropQuotes [] = [] :=
  rfl

/-- A quoted text is read as what stands between its quotes. -/
theorem dropQuotes_quoted (inner : Chars) : dropQuotes ('"' :: (inner ++ ['"'])) = inner := by
  simp [dropQuotes]

end Parley.Literal
