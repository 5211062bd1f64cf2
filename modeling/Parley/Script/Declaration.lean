import Parley.Text.CharacterClass
import Parley.Value.Literal
import Parley.Store

/-!
# Declarations of variables

A line `$name = value` without indentation declares a variable.  The value is a
quoted text without quotes in it, or a run of word characters and points with an
optional minus in front, read as a literal.  A comment may follow.  Declarations
take effect wherever they stand in a script; of several for one name the last
one counts.
-/

namespace Parley.Script

open Parley.Text

/-- The declared name and value. -/
structure Declaration where
  name : String
  value : Value
  deriving DecidableEq

namespace Declaration

/-- Whether a character may stand in an unquoted value. -/
def isBareChar (c : Char) : Bool :=
  isWord c || c == '.'

/-- Whether nothing but blanks and a comment within one line is left. -/
def endsHere (rest : Chars) : Bool :=
  match trimStart rest with
  | [] => true
  | '/' :: '/' :: comment => !comment.contains '\n'
  | _ => false

/-- A value in double quotes, whose first quote has been read. -/
def quotedValue? (text : Chars) : Option Value :=
  match cutAt? '"' text with
  | some (inner, rest) => if endsHere rest then some (.text (String.ofList inner)) else none
  | none => none

/-- A value without quotes, whose optional minus is given. -/
def bareValue? (minus text : Chars) : Option Value :=
  let run := text.takeWhile isBareChar
  if run ≠ [] ∧ endsHere (text.dropWhile isBareChar) then some (Literal.read (minus ++ run))
  else none

/-- The value at the start of a text, which has to fill it. -/
def value? : Chars → Option Value
  | '"' :: rest => quotedValue? rest
  | '-' :: rest => bareValue? ['-'] rest
  | text => bareValue? [] text

/-- Read a raw line as a declaration. -/
def read? (raw : Chars) : Option Declaration :=
  match trimEnd raw with
  | '$' :: rest =>
      let name := rest.takeWhile isWord
      match trimStart (rest.dropWhile isWord) with
      | '=' :: valueText =>
          if name = [] then none
          else (value? (trimStart valueText)).map fun value => ⟨String.ofList name, value⟩
      | _ => none
  | _ => none

/-- The declarations of a script, in order. -/
def all (script : List Chars) : List Declaration :=
  script.filterMap read?

end Declaration

/-- The variables after the declarations of a script. -/
def declare (store : Store) (script : List Chars) : Store :=
  store.insertAll
    ((Declaration.all script).map fun declaration => (declaration.name, declaration.value))

@[simp]
theorem declare_nil (store : Store) : declare store [] = store :=
  rfl

end Parley.Script
