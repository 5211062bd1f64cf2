import Parley.CommandLine.Failure
import Parley.Text.CharacterClass
import Parley.Value.Literal
import Parley.Store

/-!
# Overridden variables

`NAME=LITERAL` sets a variable after the declarations of a script; a `$` may
stand before the name.  A variable that is there already keeps its type.
-/

namespace Parley.CommandLine

open Parley.Text

/-- A variable and the value it is given. -/
structure Override where
  name : String
  value : Value
  deriving DecidableEq

namespace Override

/-- Whether a character may stand in the name of an overridden variable. -/
def isNameChar (c : Char) : Bool :=
  isAlphanumeric c || c == '_'

/-- The name without a leading `$`. -/
def dropSigil : Chars → Chars
  | '$' :: name => name
  | name => name

/-- Read an override. -/
def read (raw : String) : Except Failure Override :=
  match cutAt? '=' raw.toList with
  | none => .error (.invalidOverride raw)
  | some (before, literal) =>
      let name := dropSigil (trim before)
      if name ≠ [] ∧ name.all isNameChar then .ok ⟨String.ofList name, Literal.read literal⟩
      else .error (.invalidOverride raw)

/-- Read overrides in order, up to the first that cannot be read. -/
def readAll (raws : List String) : Except Failure (List Override) :=
  raws.mapM read

/-- Set one variable, which keeps the type that it has. -/
def apply (override : Override) (store : Store) : Except Failure Store :=
  match Store.typeOf? store override.name with
  | some declared =>
      if declared = override.value.type then
        .ok (store.insert override.name override.value)
      else .error (.overrideType override.name declared override.value.type)
  | none => .ok (store.insert override.name override.value)

/-- Set variables in order, up to the first that would change its type. -/
def applyAll (overrides : List Override) (store : Store) : Except Failure Store :=
  overrides.foldlM (fun store override => override.apply store) store

end Override

end Parley.CommandLine
