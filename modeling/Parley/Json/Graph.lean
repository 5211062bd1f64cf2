import Parley.Graph
import Parley.Json

/-!
# Graphs and variables as JSON

The dump of a compiled script.  Values keep their type: integers are written
without a point, floating-point numbers never are.  Links are written as places,
missing ones as null.
-/

namespace Parley

/-- A value as a bare JSON value. -/
def Value.toJson : Value → Json
  | integer value => .integer value.toInt
  | float value => .real value
  | boolean value => .boolean value
  | text value => .text value

/-- Variables as a record, by name. -/
def Store.toJson (store : Store) : Json :=
  .record (store.toList.map fun (name, value) => (name, value.toJson))

/-- An argument as a record that says of which kind it is. -/
def Argument.toJson : Argument → Json
  | literal value => .record [("kind", .text "literal"), ("value", value.toJson)]
  | .reference name => .record [("kind", .text "variable"), ("value", .text name)]

/-- A call or a condition. -/
def Call.toJson (call : Call) : Json :=
  .record [
    ("name", .text call.name),
    ("args", .list (call.arguments.map Argument.toJson))]

/-- A list of calls or conditions. -/
def Call.listToJson (calls : List Call) : Json :=
  .list (calls.map Call.toJson)

/-- A link to a node. -/
def Json.link (target : Option Nat) : Json :=
  .optional .natural target

/-- A line. -/
def Line.toJson (line : Line) : Json :=
  .record [
    ("speaker", .optional .text line.speaker),
    ("text", .optional .text line.text),
    ("expression", .text line.expression),
    ("commands", Call.listToJson line.commands),
    ("next", .link line.next),
    ("branch", .link line.branch),
    ("options", .list (line.choices.map .natural))]

/-- An arm of a branch. -/
def Arm.toJson (arm : Arm) : Json :=
  .record [("conditions", Call.listToJson arm.conditions), ("body", .link arm.body)]

/-- A branch. -/
def Branch.toJson (branch : Branch) : Json :=
  .record [("arms", .list (branch.arms.map Arm.toJson))]

/-- A choice. -/
def Choice.toJson (choice : Choice) : Json :=
  .record [
    ("text", .text choice.text),
    ("conditions", Call.listToJson choice.conditions),
    ("commands", Call.listToJson choice.commands),
    ("next", .link choice.next),
    ("branch", .link choice.branch),
    ("root", .natural choice.root),
    ("was_selected", .boolean choice.selected)]

/-- A graph. -/
def Graph.toJson (graph : Graph) : Json :=
  .record [
    ("entries", .record (graph.entries.toList.map fun (title, line) => (title, .natural line))),
    ("lines", .list (graph.lines.toList.map Line.toJson)),
    ("branches", .list (graph.branches.toList.map Branch.toJson)),
    ("options", .list (graph.choices.toList.map Choice.toJson))]

end Parley
