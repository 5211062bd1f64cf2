import Parley.Command

/-!
# Scopes

Calls are checked when a script is compiled.  All that the check looks at is
collected in a scope: the signature of each command and the type of each
variable.  What a variable holds and what a command does play no part.
-/

namespace Parley.Script

/-- The names and types that a script is compiled against. -/
structure Scope where
  /-- The signatures of the registered commands. -/
  signature? : String → Option Signature
  /-- The types of the defined variables. -/
  type? : String → Option DataType

namespace Scope

/-- The scope of registered commands and defined variables. -/
def ofWorld {σ : Type} (registry : Registry σ) (store : Store) : Scope where
  signature? := registry.signature?
  type? := Store.typeOf? store

/-- The signature of a command, which has to be registered. -/
def signature (scope : Scope) (name : String) : Except Fault Signature :=
  match scope.signature? name with
  | some signature => .ok signature
  | none => .error (.unknownCommand name)

/-- Whether a variable is defined. -/
def defines (scope : Scope) (name : String) : Bool :=
  (scope.type? name).isSome

/-- The type of an argument. -/
def typeOf (scope : Scope) : Argument → Except Fault DataType
  | .literal value => .ok value.type
  | .reference name =>
      match scope.type? name with
      | some type => .ok type
      | none => .error (.undefinedVariable name)

/-- The types of arguments, or the fault of the first that has none. -/
def typesOf (scope : Scope) (arguments : List Argument) : Except Fault (List DataType) :=
  arguments.mapM scope.typeOf

/-- Whether a name is that of a comparison. -/
def isComparison (name : String) : Bool :=
  Comparison.all.any fun comparison => comparison.symbol == name

/-- Refuse a comparison of two different types. -/
def checkComparison (name : String) : List DataType → Except Fault Unit
  | [left, right] =>
      if isComparison name ∧ left ≠ right then
        .error (.signatureMismatch name Command.sameNumbers (DataType.describe [left, right]))
      else .ok ()
  | _ => .ok ()

/-- Check a call: its command has to be registered, its variables defined and
its arguments accepted. -/
def check (scope : Scope) (call : Call) : Except Fault Unit := do
  let signature ← scope.signature call.name
  let types ← scope.typesOf call.arguments
  signature.check call.name types
  checkComparison call.name types

end Scope

end Parley.Script
