import Parley.Number.Layout

/-!
# Values of script variables

A value is an integer of 64 bits, a floating-point number, a truth value or a
text.  Values of different types are never equal, and no operation converts one
type into another.
-/

namespace Parley

open Parley.Number

/-- The type of a value. -/
inductive DataType where
  | integer
  | float
  | boolean
  | text
  deriving DecidableEq, Repr

namespace DataType

/-- The word by which messages name a type. -/
def name : DataType → String
  | integer => "integer"
  | float => "float"
  | boolean => "boolean"
  | text => "text"

/-- Whether the values of a type are numbers. -/
def isNumeric : DataType → Bool
  | integer | float => true
  | boolean | text => false

/-- The word by which messages name the type of a result, if there is one. -/
def nameOrNothing : Option DataType → String
  | some type => type.name
  | none => "nothing"

/-- The names of a list of types, separated by commas. -/
def describe (types : List DataType) : String :=
  ", ".intercalate (types.map name)

end DataType

/-- The value of a variable or an argument. -/
inductive Value where
  | integer (value : Int64)
  | float (value : Binary64)
  | boolean (value : Bool)
  | text (value : String)
  deriving DecidableEq

namespace Value

/-- The type of a value. -/
def type : Value → DataType
  | integer _ => .integer
  | float _ => .float
  | boolean _ => .boolean
  | text _ => .text

/-- The truth value, if the value is one. -/
def toBool? : Value → Option Bool
  | boolean value => some value
  | _ => none

/-- The text, if the value is one. -/
def toText? : Value → Option String
  | text value => some value
  | _ => none

/-- Equality as scripts see it: floating-point numbers are compared as numbers,
everything else by its parts. -/
def equal : Value → Value → Bool
  | integer left, integer right => left == right
  | float left, float right => left.equal right
  | boolean left, boolean right => left == right
  | text left, text right => left == right
  | _, _ => false

/-- The layout of floating-point numbers shown to a player: always positional,
whole numbers without a point. -/
def floatLayout : Layout where
  tie := .away
  positional := none
  wholeTail := ""
  exponentPlus := ""

/-- The text of a floating-point number as it is shown to a player. -/
def floatText : Binary64 → Text.Chars
  | .finite negative rank => floatLayout.finiteText negative rank
  | .infinite negative => if negative then "-inf".toList else "inf".toList
  | .notANumber => "NaN".toList

/-- The text of a value as it is shown to a player. -/
def render : Value → String
  | integer value => String.ofList (integerText value.toInt)
  | float value => String.ofList (floatText value)
  | boolean value => if value then "true" else "false"
  | text value => value

@[simp]
theorem render_text (value : String) : (text value).render = value :=
  rfl

end Value

end Parley
