import Parley.Text.Basic
import Parley.Store

/-!
# Placeholders in texts

A placeholder is a dollar sign and a name in braces; it stands for the value of a
variable.  The name holds no brace.  Placeholders are replaced in one pass from the
left, and a value that was put in is not looked at again.
-/

namespace Parley

open Parley.Text

namespace Placeholder

/-- Whether a character may stand in the name of a placeholder. -/
def isNameChar (c : Char) : Bool :=
  !(c == '{' || c == '}')

/-- The name of the placeholder that opens a text, and what follows it. -/
def placeholder? : Chars → Option (Chars × Chars)
  | '{' :: '$' :: rest =>
      match rest.dropWhile isNameChar with
      | '}' :: after => some (rest.takeWhile isNameChar, after)
      | _ => none
  | _ => none

/-- A piece of a text: a character kept as it is, or a placeholder. -/
inductive Piece where
  | plain (c : Char)
  | reference (name : String)
  deriving DecidableEq, Repr

/-- The pieces of a text.  `skipping` counts the characters of a placeholder
already found that are still to be passed. -/
def piecesFrom (skipping : Nat) : Chars → List Piece
  | [] => []
  | c :: rest =>
      match skipping with
      | more + 1 => piecesFrom more rest
      | 0 =>
          match placeholder? (c :: rest) with
          | some (name, _) => .reference (String.ofList name) :: piecesFrom (name.length + 2) rest
          | none => .plain c :: piecesFrom 0 rest

/-- The pieces of a text, from the left. -/
def pieces (text : Chars) : List Piece :=
  piecesFrom 0 text

/-- The text of a piece; a variable has to be defined. -/
def Piece.fill (store : Store) : Piece → Except Fault Chars
  | plain c => .ok [c]
  | .reference name => (Store.read store name).map fun value => value.render.toList

/-- The text of pieces, one after the other. -/
def fill (store : Store) (pieces : List Piece) : Except Fault Chars :=
  (pieces.mapM (Piece.fill store)).map List.flatten

end Placeholder

/-- Replace every placeholder by the value of its variable. -/
def fillPlaceholders (store : Store) (text : String) : Except Fault String :=
  (Placeholder.fill store (Placeholder.pieces text.toList)).map String.ofList

end Parley
