import Parley.Outcome
import Parley.Store

/-!
# Calls

A call names a command and its arguments.  An argument is a literal value or a
variable, and a variable is looked up when the call is made, not before.
Conditions are calls whose result is a truth value.
-/

namespace Parley

/-- An argument of a call. -/
inductive Argument where
  | literal (value : Value)
  | reference (name : String)
  deriving DecidableEq

/-- A command with its arguments. -/
structure Call where
  name : String
  arguments : List Argument
  deriving DecidableEq

namespace Argument

/-- The value of an argument. -/
def value (store : Store) : Argument → Except Fault Value
  | literal value => .ok value
  | .reference name => Store.read store name

/-- The values of arguments, or the fault of the first that has none. -/
def valuesOf (store : Store) (arguments : List Argument) : Except Fault (List Value) :=
  arguments.mapM (value store)

/-- An argument as messages name it: a variable by its name, a literal by its
type. -/
def describe : Argument → String
  | literal value => value.type.name
  | .reference name => "$" ++ name

/-- Arguments as messages name them, separated by commas. -/
def describeAll (arguments : List Argument) : String :=
  ", ".intercalate (arguments.map describe)

@[simp]
theorem value_literal (store : Store) (value : Value) :
    (literal value).value store = .ok value :=
  rfl

end Argument

end Parley
