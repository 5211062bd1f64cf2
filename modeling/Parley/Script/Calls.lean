import Parley.Script.CallSyntax
import Parley.Script.Scope
import Parley.Text.Nesting
import Parley.Value.Literal

/-!
# Commands and conditions in scripts

A command block lists calls and assignments, separated by semicolons.  A
condition lists calls and comparisons, joined by the word `and`.  Each is turned
into calls that are checked against a scope, so that what is compiled names only
commands and variables that exist and fits their signatures.
-/

namespace Parley.Script

open Parley.Text

namespace Scope

/-- Read an argument: `$name` is a variable, anything else a literal. -/
def readArgument (scope : Scope) (raw : Chars) : Except Fault Argument :=
  match trim raw with
  | [] => .error (.malformed .emptyArgument)
  | '$' :: rest =>
      let name := String.ofList rest
      if scope.defines name then .ok (.reference name) else .error (.undefinedVariable name)
  | literal => .ok (.literal (Literal.read literal))

/-- Read arguments in order, up to the first that cannot be read. -/
def readArguments (scope : Scope) (sources : List Chars) : Except Fault (List Argument) :=
  sources.mapM scope.readArgument

/-- Read a call of the form `name(arguments)`; other forms give nothing. -/
def readCall? (scope : Scope) (source : Chars) : Except Fault (Option Call) :=
  match CallSyntax.call? source with
  | none => .ok none
  | some (name, argumentText) => do
      let inner := trim argumentText
      let arguments ← scope.readArguments (if inner = [] then [] else splitUnnested ',' inner)
      return some ⟨String.ofList name, arguments⟩

/-- Check a call and give it back. -/
def checked (scope : Scope) (call : Call) : Except Fault Call := do
  scope.check call
  return call

/-- Read an assignment to a defined variable. -/
def readAssignment (scope : Scope) (target source : Chars) : Except Fault Call :=
  let name := String.ofList target
  if scope.defines name then do
    let argument ← scope.readArgument source
    scope.checked ⟨Command.assignName, [.reference name, argument]⟩
  else .error (.undefinedVariable name)

/-- Read one command. -/
def readCommand (scope : Scope) (raw : Chars) : Except Fault Call := do
  let source := trim raw
  match ← scope.readCall? source with
  | some call => scope.checked call
  | none =>
      match CallSyntax.assignment? source with
      | some (target, argument) => scope.readAssignment target argument
      | none => throw (.malformed (.invalidCommand (String.ofList source)))

/-- Read a command block; empty parts of it are passed over. -/
def readCommands (scope : Scope) (block : Chars) : Except Fault (List Call) :=
  (((splitUnnested ';' block).map trim).filter fun source => !source.isEmpty).mapM
    scope.readCommand

/-- Read a call or a comparison that has not been checked yet. -/
def readUncheckedCondition (scope : Scope) (source : Chars) : Except Fault Call := do
  match ← scope.readCall? source with
  | some call => return call
  | none =>
      match CallSyntax.comparison? source with
      | some (left, operator, right) =>
          return ⟨operator, ← scope.readArguments [left, right]⟩
      | none => throw (.malformed (.invalidCondition (String.ofList source)))

/-- Refuse a call whose result is not a truth value. -/
def checkBoolean (scope : Scope) (call : Call) : Except Fault Unit := do
  let signature ← scope.signature call.name
  if signature.result = some .boolean then return ()
  else throw (.nonBooleanCondition call.name (DataType.nameOrNothing signature.result))

/-- Read one condition. -/
def readCondition (scope : Scope) (raw : Chars) : Except Fault Call := do
  let call ← scope.readUncheckedCondition (trim raw)
  scope.check call
  scope.checkBoolean call
  return call

/-- The word between two conditions. -/
def andWord : Chars := "and".toList

/-- Read conditions joined by the word `and`. -/
def readConditions (scope : Scope) (source : Chars) : Except Fault (List Call) :=
  (splitUnnestedWord andWord (trim source)).mapM scope.readCondition

end Scope

end Parley.Script
