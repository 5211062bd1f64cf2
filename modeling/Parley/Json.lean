import Parley.Number.Layout

/-!
# JSON texts

A JSON value is printed in two ways: compact, without any space, and indented by
two spaces a level with one element a line.  How strings and numbers are written
is left to a printer.  The strings of the standard one escape the quote, the
backslash and the control characters below the space, and nothing else; numbers
that are not finite are printed as null.
-/

namespace Parley

open Parley.Number
open Parley.Text

/-- A JSON value; the fields of a record are kept in order. -/
inductive Json where
  | null
  | boolean (value : Bool)
  | integer (value : Int)
  | real (value : Binary64)
  | text (value : String)
  | list (items : List Json)
  | record (fields : List (String × Json))

namespace Json

/-- A natural number. -/
def natural (number : Nat) : Json :=
  integer number

/-- A value or null. -/
def optional {α : Type} (encode : α → Json) : Option α → Json
  | some value => encode value
  | none => null

/-- The layout of floating-point numbers: a point or an exponent always shows
that they are no integers. -/
def floatLayout : Layout where
  tie := .even
  positional := some (-5, 15)
  wholeTail := ".0"
  exponentPlus := "+"

/-- The text of a floating-point number. -/
def floatText : Binary64 → Chars
  | .finite negative rank => floatLayout.finiteText negative rank
  | _ => "null".toList

/-- The two hexadecimal digits of a number below 256. -/
def hexByte (code : Nat) : Chars :=
  [Nat.digitChar (code / 16), Nat.digitChar (code % 16)]

/-- A character inside a string. -/
def escapeChar (c : Char) : Chars :=
  if c = '"' then ['\\', '"']
  else if c = '\\' then ['\\', '\\']
  else if c = '\n' then ['\\', 'n']
  else if c = '\r' then ['\\', 'r']
  else if c = '\t' then ['\\', 't']
  else if c = '\x08' then ['\\', 'b']
  else if c = '\x0c' then ['\\', 'f']
  else if c.toNat < 0x20 then '\\' :: 'u' :: '0' :: '0' :: hexByte c.toNat
  else [c]

/-- A string in quotes. -/
def quote (text : String) : Chars :=
  '"' :: (text.toList.flatMap escapeChar ++ ['"'])

/-- How strings and numbers are written. -/
structure Printer where
  string : String → Chars
  integer : Int → Chars
  real : Binary64 → Chars

/-- Strings stand in quotes, and numbers are decimal. -/
def Printer.standard : Printer where
  string := quote
  integer := integerText
  real := floatText

section Printing

variable (printer : Printer)

mutual

/-- The text of a value without any space. -/
def compactText : Json → Chars
  | null => "null".toList
  | boolean value => if value then "true".toList else "false".toList
  | integer value => printer.integer value
  | real value => printer.real value
  | text value => printer.string value
  | list items => '[' :: (compactItems items ++ [']'])
  | record fields => '{' :: (compactFields fields ++ ['}'])

/-- Items separated by commas. -/
def compactItems : List Json → Chars
  | [] => []
  | [item] => compactText item
  | item :: rest => compactText item ++ ',' :: compactItems rest

/-- Fields separated by commas. -/
def compactFields : List (String × Json) → Chars
  | [] => []
  | [(key, value)] => printer.string key ++ ':' :: compactText value
  | (key, value) :: rest =>
      printer.string key ++ ':' :: compactText value ++ ',' :: compactFields rest

end

/-- A line feed and the indentation of a level. -/
def newline (level : Nat) : Chars :=
  '\n' :: List.replicate (2 * level) ' '

mutual

/-- The text of a value with one element a line. -/
def indentedText (level : Nat) : Json → Chars
  | null => "null".toList
  | boolean value => if value then "true".toList else "false".toList
  | integer value => printer.integer value
  | real value => printer.real value
  | text value => printer.string value
  | list [] => ['[', ']']
  | list (item :: rest) =>
      '[' :: (newline (level + 1) ++ indentedText (level + 1) item ++
        indentedItems (level + 1) rest ++ newline level ++ [']'])
  | record [] => ['{', '}']
  | record ((key, value) :: rest) =>
      '{' :: (newline (level + 1) ++ printer.string key ++ ':' :: ' ' ::
        indentedText (level + 1) value ++ indentedFields (level + 1) rest ++ newline level ++
          ['}'])

/-- Further items, each after a comma. -/
def indentedItems (level : Nat) : List Json → Chars
  | [] => []
  | item :: rest =>
      ',' :: (newline level ++ indentedText level item ++ indentedItems level rest)

/-- Further fields, each after a comma. -/
def indentedFields (level : Nat) : List (String × Json) → Chars
  | [] => []
  | (key, value) :: rest =>
      ',' :: (newline level ++ printer.string key ++ ':' :: ' ' :: indentedText level value ++
        indentedFields level rest)

end

/-- Print a value without any space. -/
def compactWith (json : Json) : String :=
  String.ofList (json.compactText printer)

end Printing

/-- Print a value without any space, as dumps are printed. -/
def compact (json : Json) : String :=
  json.compactWith .standard

/-- Print a value with one element a line. -/
def indented (json : Json) : String :=
  String.ofList (json.indentedText .standard 0)

end Json

end Parley
