import Parley.Call
import Parley.Signature

/-!
# Commands

Scripts act through commands.  Three kinds are built in: the assignment `=`,
which writes a variable, the comparisons of two numbers of one type, and the
equality tests.  A host adds commands of its own, which may fail and may change
the host's state; `σ` is the type of that state throughout.

Running a call gives an outcome and the world afterwards.  A failing call may
have changed the host's state, never the variables.
-/

namespace Parley

/-- The order tests between two numbers. -/
inductive Comparison where
  | less
  | atMost
  | greater
  | atLeast
  deriving DecidableEq, Repr

namespace Comparison

/-- The symbol of a comparison, which is its command name. -/
def symbol : Comparison → String
  | less => "<"
  | atMost => "<="
  | greater => ">"
  | atLeast => ">="

/-- Every comparison. -/
def all : List Comparison := [less, atMost, greater, atLeast]

/-- Whether a comparison holds of two things in the given order. -/
def holds : Comparison → Ordering → Bool
  | less, order => order.isLT
  | atMost, order => order.isLE
  | greater, order => order.isGT
  | atLeast, order => order.isGE

/-- Compare two numbers of one type; there is no answer for other values.  No
comparison holds of a value that is not a number. -/
def verdict? (comparison : Comparison) : List Value → Option Bool
  | [.integer left, .integer right] =>
      some (comparison.holds (compare left.toInt right.toInt))
  | [.float left, .float right] =>
      match left.order? right with
      | some order => some (comparison.holds order)
      | none => some false
  | _ => none

end Comparison

/-- What calls can change: the variables and the host's state. -/
structure World (σ : Type) where
  store : Store
  host : σ

/-- A function of the host: it takes the argument values and the host's state,
and either fails with a message or gives a result or nothing. -/
abbrev HostFunction (σ : Type) :=
  List Value → σ → Except String (Option Value) × σ

/-- What a command does. -/
inductive Action (σ : Type) where
  /-- Set the variable given first to the value given second. -/
  | assign
  /-- Compare two numbers of one type. -/
  | compare (comparison : Comparison)
  /-- Apply a function. -/
  | apply (function : HostFunction σ)

/-- A command: what it takes and gives, and what it does. -/
structure Command (σ : Type) where
  signature : Signature
  action : Action σ

namespace Command

variable {σ : Type}

/-- What messages ask for where two numbers of one type are needed. -/
def sameNumbers : String := "two numbers of the same type"

/-- The name of the assignment. -/
def assignName : String := "="

/-- The values of the arguments, checked against the signature of `command`. -/
def argumentValues (command : Command σ) (name : String) (arguments : List Argument)
    (store : Store) : Except Fault (List Value) := do
  let values ← Argument.valuesOf store arguments
  command.signature.check name (values.map Value.type)
  return values

/-- Hold the outcome of a function against the declared type of its result. -/
def settle (name : String) (declared : Option DataType) :
    Except String (Option Value) → Except Fault (Option Value)
  | .error message => .error (.commandFailed name message)
  | .ok result =>
      let produced := result.map Value.type
      if produced = declared then .ok result
      else
        .error (.commandFailed name
          ("declared return " ++ DataType.nameOrNothing declared ++ " but produced " ++
            DataType.nameOrNothing produced))

/-- Run a command under the name by which it was called. -/
def run (command : Command σ) (name : String) (arguments : List Argument) (world : World σ) :
    Except Fault (Option Value) × World σ :=
  match command.action with
  | .assign =>
      match arguments with
      | [.reference target, source] =>
          match source.value world.store with
          | .error fault => (.error fault, world)
          | .ok value =>
              (.ok none, { world with store := world.store.insert target value })
      | _ =>
          (.error (.signatureMismatch name "$variable, any" (Argument.describeAll arguments)),
            world)
  | .compare comparison =>
      match command.argumentValues name arguments world.store with
      | .error fault => (.error fault, world)
      | .ok values =>
          match comparison.verdict? values with
          | some result => (.ok (some (.boolean result)), world)
          | none =>
              (.error (.signatureMismatch name sameNumbers
                (DataType.describe (values.map Value.type))), world)
  | .apply function =>
      match command.argumentValues name arguments world.store with
      | .error fault => (.error fault, world)
      | .ok values =>
          let (outcome, host) := function values world.host
          (settle name command.signature.result outcome, { world with host := host })

/-- A command of the host. -/
def ofFunction (parameters : List Parameter) (result : Option DataType)
    (function : HostFunction σ) : Command σ :=
  ⟨⟨parameters, result⟩, .apply function⟩

/-- A comparison as a command. -/
def ofComparison (comparison : Comparison) : Command σ :=
  ⟨⟨[.number, .number], some .boolean⟩, .compare comparison⟩

/-- A test of two values of any types. -/
def ofTest (test : Value → Value → Bool) : Command σ :=
  ofFunction [.any, .any] (some .boolean) fun arguments host =>
    match arguments with
    | [left, right] => (.ok (some (.boolean (test left right))), host)
    | _ => (.ok (some (.boolean false)), host)

/-- The assignment as a command. -/
def assignment : Command σ :=
  ⟨⟨[.any, .any], none⟩, .assign⟩

end Command

/-- The commands that scripts may call, by name. -/
abbrev Registry (σ : Type) := NameMap (Command σ)

namespace Registry

variable {σ : Type}

/-- The built-in commands. -/
def builtin : Registry σ :=
  NameMap.ofList
    (Comparison.all.map (fun comparison => (comparison.symbol, Command.ofComparison comparison)) ++
      [("==", Command.ofTest Value.equal),
        ("!=", Command.ofTest fun left right => !left.equal right),
        (Command.assignName, Command.assignment)])

/-- Add a command of the host, in place of an earlier one of that name. -/
def register (registry : Registry σ) (name : String) (parameters : List Parameter)
    (result : Option DataType) (function : HostFunction σ) : Registry σ :=
  registry.insert name (Command.ofFunction parameters result function)

/-- The signature of a command, if it is registered. -/
def signature? (registry : Registry σ) (name : String) : Option Signature :=
  (registry.get? name).map Command.signature

/-- The signature of a command, which has to be registered. -/
def signature (registry : Registry σ) (name : String) : Except Fault Signature :=
  match registry.signature? name with
  | some signature => .ok signature
  | none => .error (.unknownCommand name)

/-- Run the command of a name on arguments. -/
def perform (registry : Registry σ) (name : String) (arguments : List Argument)
    (world : World σ) : Except Fault (Option Value) × World σ :=
  match registry.get? name with
  | none => (.error (.unknownCommand name), world)
  | some command => command.run name arguments world

/-- Run a call. -/
def call (registry : Registry σ) (call : Call) (world : World σ) :
    Except Fault (Option Value) × World σ :=
  registry.perform call.name call.arguments world

/-- Run calls in order, up to the first that fails. -/
def runAll (registry : Registry σ) : List Call → World σ → Except Fault Unit × World σ
  | [], world => (.ok (), world)
  | call :: rest, world =>
      match registry.call call world with
      | (.error fault, world) => (.error fault, world)
      | (.ok _, world) => registry.runAll rest world

/-- Evaluate a condition, whose result has to be a truth value. -/
def holds (registry : Registry σ) (condition : Call) (world : World σ) :
    Except Fault Bool × World σ :=
  match registry.call condition world with
  | (.error fault, world) => (.error fault, world)
  | (.ok (some (.boolean value)), world) => (.ok value, world)
  | (.ok result, world) =>
      (.error (.nonBooleanCondition condition.name
        (DataType.nameOrNothing (result.map Value.type))), world)

/-- Whether all conditions hold; they are evaluated in order, up to the first
that is false or fails. -/
def allHold (registry : Registry σ) : List Call → World σ → Except Fault Bool × World σ
  | [], world => (.ok true, world)
  | condition :: rest, world =>
      match registry.holds condition world with
      | (.error fault, world) => (.error fault, world)
      | (.ok false, world) => (.ok false, world)
      | (.ok true, world) => registry.allHold rest world

@[simp]
theorem runAll_nil (registry : Registry σ) (world : World σ) :
    registry.runAll [] world = (.ok (), world) :=
  rfl

@[simp]
theorem allHold_nil (registry : Registry σ) (world : World σ) :
    registry.allHold [] world = (.ok true, world) :=
  rfl

end Registry

end Parley
