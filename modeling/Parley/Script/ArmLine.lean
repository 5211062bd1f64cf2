import Parley.Fault
import Parley.Text.Nesting

/-!
# Arm lines

An arm of a branch is one parenthesised group on a line of its own:
`(if condition)`, `(else if condition)` or `(else)`.
-/

namespace Parley.Script.ArmLine

open Parley.Text

/-- What the group holds that makes up a whole line. -/
def wholeGroup? (content : Chars) : Option Chars :=
  match leadingGroup? content with
  | some (inner, []) => some inner
  | _ => none

/-- What follows the `if` of a condition. -/
def afterIf? (text : Chars) : Option Chars :=
  "if".toList.isPrefixOf? text

/-- A condition, which may not be empty. -/
def condition (content : Chars) : Option Chars → Except Fault (Option Chars)
  | some source =>
      let trimmed := trim source
      if trimmed = [] then
        .error (.malformed (.branchConditionEmpty (String.ofList content)))
      else .ok (some trimmed)
  | none => .error (.malformed (.branchConditionEmpty (String.ofList content)))

/-- The source of the condition of an arm line; a bare `(else)` has none. -/
def read (content : Chars) : Except Fault (Option Chars) :=
  match wholeGroup? content with
  | none => .error (.malformed (.branchNotGrouped (String.ofList content)))
  | some group =>
      let inner := trim group
      match "else".toList.isPrefixOf? inner with
      | some rest =>
          let guard := trim rest
          if guard = [] then .ok none else condition content (afterIf? guard)
      | none => condition content (afterIf? inner)

end Parley.Script.ArmLine
