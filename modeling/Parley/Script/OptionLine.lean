import Parley.Fault
import Parley.Text.Nesting

/-!
# Option lines

An option is written `> (if condition) text [[end]] (commands)`, where everything
but the text may be left out.  The end marker makes it terminal: choosing it ends
the dialogue.
-/

namespace Parley.Script

open Parley.Text

/-- The parts of an option line. -/
structure OptionLine where
  text : String
  /-- The source of the leading condition. -/
  condition : Option Chars
  /-- The source of the command block. -/
  block : Option Chars
  terminal : Bool
  deriving DecidableEq

namespace OptionLine

/-- What ends a terminal option. -/
def endMarker : Chars := "[[end]]".toList

/-- The word that opens a condition. -/
def ifWord : Chars := "if".toList

/-- Take the end marker off the end of a text. -/
def takeEndMarker (text : Chars) : Chars × Bool :=
  match dropEnd? endMarker text with
  | some rest => (trimEnd rest, true)
  | none => (text, false)

/-- Take the condition off the start of an option's body. -/
def takeCondition (body : Chars) : Except Fault (Option Chars × Chars) :=
  if "(if".toList.isPrefixOf body then
    match leadingGroup? body with
    | none => .error (.malformed (.optionNotClosed (String.ofList body)))
    | some (inner, after) =>
        let condition := trim (dropRepeated ifWord inner)
        if condition = [] then
          .error (.malformed (.optionConditionEmpty (String.ofList body)))
        else .ok (some condition, trim after)
  else .ok (none, body)

/-- What follows the mark of an option line. -/
def body (content : Chars) : Chars :=
  match content with
  | '>' :: rest => trim rest
  | _ => trim content

/-- Read an option line. -/
def read (content : Chars) : Except Fault OptionLine := do
  let (marked, block) := takeFinalGroup (body content)
  let (conditional, terminal) := takeEndMarker marked
  let (condition, text) ← takeCondition conditional
  if text = [] then throw (.malformed (.optionTextEmpty (String.ofList content)))
  else return ⟨String.ofList text, condition, block, terminal⟩

end OptionLine

end Parley.Script
