import Parley.Fault

/-!
# Command signatures

A signature lists the types a command takes, position by position, and the type
of its result.  A parameter may ask for one type, for a number of either type,
or for anything.
-/

namespace Parley

/-- What a parameter accepts. -/
inductive Parameter where
  /-- Values of one type. -/
  | exactly (type : DataType)
  /-- Integers and floating-point numbers. -/
  | number
  /-- Every value. -/
  | any
  deriving DecidableEq, Repr

namespace Parameter

/-- Whether a parameter accepts values of a type. -/
def accepts : Parameter → DataType → Bool
  | exactly wanted, found => wanted == found
  | number, found => found.isNumeric
  | any, _ => true

/-- The word by which messages name a parameter type. -/
def name : Parameter → String
  | exactly type => type.name
  | number => "number"
  | any => "any"

end Parameter

/-- The parameter types of a command and the type of its result, if it has one. -/
structure Signature where
  parameters : List Parameter
  result : Option DataType
  deriving DecidableEq, Repr

namespace Signature

/-- Whether parameters accept argument types, one for one. -/
def acceptsAll : List Parameter → List DataType → Bool
  | [], [] => true
  | parameter :: parameters, type :: types =>
      parameter.accepts type && acceptsAll parameters types
  | _, _ => false

/-- Whether a command may be called with arguments of the given types. -/
def accepts (signature : Signature) (found : List DataType) : Bool :=
  acceptsAll signature.parameters found

/-- The names of the parameter types, separated by commas. -/
def describe (signature : Signature) : String :=
  ", ".intercalate (signature.parameters.map Parameter.name)

/-- Refuse arguments that the signature of command `name` does not accept. -/
def check (signature : Signature) (name : String) (found : List DataType) :
    Except Fault Unit :=
  if signature.accepts found then .ok ()
  else .error (.signatureMismatch name signature.describe (DataType.describe found))

/-- A check passes exactly on accepted arguments. -/
theorem check_eq_ok_iff {signature : Signature} {name : String} {found : List DataType} :
    signature.check name found = .ok () ↔ signature.accepts found = true := by
  unfold check
  split <;> simp_all

end Signature

end Parley
