import Parley.Script.Declaration

/-!
# Statements

A script is a list of raw lines.  A raw line is cut at the first `//`.  Tabs at
its start are its indentation, blanks around the rest do not count, and the
first characters of the rest say what kind of construct the line holds.  Such a
line is a statement.  Blank lines, lines with only a comment and declarations of
variables carry no construct: they are no statements.
-/

namespace Parley.Script

open Parley.Text

/-- The constructs that a statement can hold. -/
inductive Construct where
  /-- The title of a dialogue: `- TITLE`. -/
  | dialogue
  /-- Something the player may choose: `> text`. -/
  | option
  /-- The first arm of a branch: `(if …)`. -/
  | ifArm
  /-- A further arm of a branch: `(else if …)` or `(else)`. -/
  | elseArm
  /-- Something said: `speaker: text`. -/
  | speech
  deriving DecidableEq, Repr

/-- The construct that a text holds, by its first characters. -/
def Construct.ofContent (content : Chars) : Construct :=
  if "-".toList.isPrefixOf content then .dialogue
  else if ">".toList.isPrefixOf content then .option
  else if "(if".toList.isPrefixOf content then .ifArm
  else if "(else".toList.isPrefixOf content then .elseArm
  else .speech

/-- A line of a script that carries a construct. -/
structure Statement where
  /-- The place of the line in the script, counted from one. -/
  number : Nat
  /-- The number of tabs at its start. -/
  indent : Nat
  /-- The line without indentation, comment and surrounding blanks. -/
  content : Chars
  construct : Construct
  deriving DecidableEq, Repr

namespace Statement

/-- The part of a line before the first `//`. -/
def dropComment : Chars → Chars
  | [] => []
  | c :: rest =>
      if c = '/' ∧ rest.head? = some '/' then [] else c :: dropComment rest

/-- Whether a character is a tab. -/
def isTab (c : Char) : Bool :=
  c == '\t'

/-- Read a raw line; a line without content is no statement. -/
def read? (number : Nat) (raw : Chars) : Option Statement :=
  let uncommented := dropComment raw
  let content := trim (uncommented.dropWhile isTab)
  if content = [] then none
  else
    some ⟨number, (uncommented.takeWhile isTab).length, content, Construct.ofContent content⟩

/-- Read a raw line that is not the declaration of a variable. -/
def readUndeclared? (number : Nat) (raw : Chars) : Option Statement :=
  if (Declaration.read? raw).isSome then none else read? number raw

/-- The statements of a script whose first line has the given number. -/
def allFrom (number : Nat) : List Chars → List Statement
  | [] => []
  | raw :: rest => (readUndeclared? number raw).toList ++ allFrom (number + 1) rest

/-- The statements of a script. -/
def all (script : List Chars) : List Statement :=
  allFrom 1 script

@[simp]
theorem all_nil : all [] = [] :=
  rfl

/-- A statement keeps the number of its raw line. -/
theorem number_of_read? {number : Nat} {raw : Chars} {statement : Statement}
    (found : read? number raw = some statement) : statement.number = number := by
  simp only [read?] at found
  split at found
  · cases found
  · cases found
    rfl

end Statement

end Parley.Script
