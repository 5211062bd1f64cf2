import Parley.Text.CharacterClass
import Parley.Text.Basic

/-!
# The three forms of a call

Inline sources come in three forms: `name(arguments)`, `$name = argument` and
`operand operator operand`.  The functions here take a source apart without
looking at what its parts mean.  A call and an assigned argument stay within one
line.
-/

namespace Parley.Script.CallSyntax

open Parley.Text

/-- The name and the argument text of `name(arguments)`.  The closing
parenthesis is the last character of the source. -/
def call? (source : Chars) : Option (Chars × Chars) :=
  let name := source.takeWhile isWord
  match trimStart (source.dropWhile isWord) with
  | '(' :: group =>
      let inner := group.dropLast
      if name ≠ [] ∧ group.getLast? = some ')' ∧ '\n' ∉ inner then some (name, inner)
      else none
  | _ => none

/-- The variable and the argument text of `$name = argument`. -/
def assignment? (source : Chars) : Option (Chars × Chars) :=
  match source with
  | '$' :: rest =>
      let name := rest.takeWhile isWord
      match trimStart (rest.dropWhile isWord) with
      | '=' :: assigned =>
          let argument := trimStart assigned
          if name ≠ [] ∧ argument ≠ [] ∧ argument.head? ≠ some '=' ∧ '\n' ∉ argument then
            some (name, argument)
          else none
      | _ => none
  | _ => none

/-- Whether a character may stand in an unquoted operand. -/
def isOperandChar (c : Char) : Bool :=
  !(isBlank c || c == '=' || c == '!' || c == '<' || c == '>' || c == '"')

/-- The operand at the start of a text, with its quotes if it has them, and what
follows it. -/
def operand? : Chars → Option (Chars × Chars)
  | '"' :: rest =>
      (cutAt? '"' rest).map fun (inner, after) => ('"' :: (inner ++ ['"']), after)
  | text =>
      let run := text.takeWhile isOperandChar
      if run = [] then none else some (run, text.dropWhile isOperandChar)

/-- The comparison operator at the start of a text, and what follows it. -/
def operator? : Chars → Option (String × Chars)
  | '=' :: '=' :: rest => some ("==", rest)
  | '!' :: '=' :: rest => some ("!=", rest)
  | '<' :: '=' :: rest => some ("<=", rest)
  | '>' :: '=' :: rest => some (">=", rest)
  | '<' :: rest => some ("<", rest)
  | '>' :: rest => some (">", rest)
  | _ => none

/-- The parts of `operand operator operand`. -/
def comparison? (source : Chars) : Option (Chars × String × Chars) :=
  match operand? source with
  | none => none
  | some (left, afterLeft) =>
      match operator? (trimStart afterLeft) with
      | none => none
      | some (operator, afterOperator) =>
          match operand? (trimStart afterOperator) with
          | some (right, []) => some (left, operator, right)
          | _ => none

end Parley.Script.CallSyntax
