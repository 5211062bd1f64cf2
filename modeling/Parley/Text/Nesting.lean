import Parley.Text.Basic

/-!
# Quotes and parentheses

Inline parts of a script are found by reading a text from its start and keeping
track of two things: whether a double quote is open, and how many parentheses
are open outside quotes.  A place is at top level when neither is.

The file holds the bookkeeping (`Nesting`), the two ways to split a text at its
top level, and the two ways to find a parenthesised group.  Splitting forgives
a parenthesis that closes nothing, finding a group does not.
-/

namespace Parley.Text

/-- What is open at a place of a text. -/
structure Nesting where
  /-- Parentheses open outside quotes. -/
  depth : Nat
  /-- Whether a double quote is open. -/
  quoted : Bool
  deriving DecidableEq, Repr

namespace Nesting

/-- Nothing is open. -/
def top : Nesting := ⟨0, false⟩

/-- Whether a place is at top level. -/
def isTop (nesting : Nesting) : Bool :=
  nesting.depth == 0 && !nesting.quoted

/-- Read one character; a parenthesis that closes nothing is passed over. -/
def read (nesting : Nesting) (c : Char) : Nesting :=
  if c = '"' then { nesting with quoted := !nesting.quoted }
  else if nesting.quoted then nesting
  else if c = '(' then { nesting with depth := nesting.depth + 1 }
  else if c = ')' then { nesting with depth := nesting.depth - 1 }
  else nesting

/-- Read one character, or fail on a parenthesis that closes nothing. -/
def read? (nesting : Nesting) (c : Char) : Option Nesting :=
  if c = ')' ∧ nesting.quoted = false ∧ nesting.depth = 0 then none
  else some (nesting.read c)

/-- Read a whole text, or fail on a parenthesis that closes nothing. -/
def readAll? (nesting : Nesting) : Chars → Option Nesting
  | [] => some nesting
  | c :: rest => (nesting.read? c).bind (readAll? · rest)

@[simp]
theorem readAll?_nil (nesting : Nesting) : nesting.readAll? [] = some nesting :=
  rfl

/-- A text is read piece by piece. -/
theorem readAll?_append (nesting : Nesting) (first second : Chars) :
    nesting.readAll? (first ++ second) =
      (nesting.readAll? first).bind (readAll? · second) := by
  induction first generalizing nesting with
  | nil => rfl
  | cons c first ih =>
      simp only [List.cons_append, readAll?]
      cases nesting.read? c with
      | none => rfl
      | some next => simpa using ih next

end Nesting

/-- A text whose quotes are paired and whose parentheses match, outside quotes,
without ever closing one that is not open. -/
def Balanced (text : Chars) : Prop :=
  Nesting.top.readAll? text = some Nesting.top

instance (text : Chars) : Decidable (Balanced text) :=
  inferInstanceAs (Decidable (_ = _))

/-- Put a character in front of the first part. -/
def consFirst (c : Char) : List Chars → List Chars
  | [] => [[c]]
  | part :: parts => (c :: part) :: parts

/-- Split at every top-level `separator`, starting in a given nesting.  This is
for separators other than quotes and parentheses, which open or close something
and are no place to cut. -/
def splitFrom (separator : Char) (nesting : Nesting) : Chars → List Chars
  | [] => [[]]
  | c :: rest =>
      if c = separator ∧ nesting.isTop then
        [] :: splitFrom separator nesting rest
      else
        consFirst c (splitFrom separator (nesting.read c) rest)

/-- Split a text at every `separator` outside quotes and parentheses; the
separator is neither a quote nor a parenthesis itself. -/
def splitUnnested (separator : Char) (text : Chars) : List Chars :=
  splitFrom separator Nesting.top text

/-- Whether the first character of a text is a blank. -/
def startsBlank : Chars → Bool
  | [] => false
  | c :: _ => isBlank c

/-- Whether `word` stands at the start of a text and a blank follows it. -/
def wordAhead (word text : Chars) : Bool :=
  match word.isPrefixOf? text with
  | some rest => startsBlank rest
  | none => false

/-- Split at every top-level `word` between blanks.  `skipping` counts the
characters of a word already cut that are still to be passed, and `afterBlank`
says whether the last character read is a blank.  The word begins with neither a
quote nor a parenthesis. -/
def splitWordFrom (word : Chars) (skipping : Nat) (afterBlank : Bool) (nesting : Nesting) :
    Chars → List Chars
  | [] => [[]]
  | c :: rest =>
      match skipping with
      | more + 1 => splitWordFrom word more (isBlank c) (nesting.read c) rest
      | 0 =>
          if afterBlank ∧ nesting.isTop ∧ wordAhead word (c :: rest) then
            [] :: splitWordFrom word (word.length - 1) (isBlank c) (nesting.read c) rest
          else
            consFirst c (splitWordFrom word 0 (isBlank c) (nesting.read c) rest)

/-- Split a text at every `word` that stands between blanks outside quotes and
parentheses.  The parts keep their blanks. -/
def splitUnnestedWord (word text : Chars) : List Chars :=
  splitWordFrom word 0 false Nesting.top text

/-- The rest of a group whose opening parenthesis has been read: what it holds
up to the parenthesis that closes it, and what follows. -/
def closeFrom (nesting : Nesting) : Chars → Option (Chars × Chars)
  | [] => none
  | c :: rest =>
      if c = ')' ∧ nesting.quoted = false ∧ nesting.depth ≤ 1 then some ([], rest)
      else (closeFrom (nesting.read c) rest).map fun (inner, after) => (c :: inner, after)

/-- What the group that opens a text holds, and what follows the group. -/
def leadingGroup? : Chars → Option (Chars × Chars)
  | '(' :: rest => closeFrom ⟨1, false⟩ rest
  | _ => none

/-- The places of the top-level groups of a text: fails if the text is not
balanced, and otherwise gives the position of the last opening parenthesis at
depth zero.  `position` is the place of the next character. -/
def finalGroupFrom (position : Nat) (nesting : Nesting) (found : Option Nat) :
    Chars → Option Nat
  | [] => if nesting = Nesting.top then found else none
  | c :: rest =>
      match nesting.read? c with
      | none => none
      | some next =>
          finalGroupFrom (position + 1) next
            (if c = '(' ∧ nesting.isTop then some position else found) rest

/-- Split off the last top-level group of a text that ends in one.  A group that
opens the text belongs to the text; blanks before the group are dropped. -/
def takeFinalGroup (text : Chars) : Chars × Option Chars :=
  let trimmed := trimEnd text
  if trimmed.getLast? = some ')' then
    match finalGroupFrom 0 Nesting.top none trimmed with
    | some (start + 1) =>
        (trimEnd (trimmed.take (start + 1)), some ((trimmed.drop (start + 2)).dropLast))
    | _ => (trimmed, none)
  else (trimmed, none)

end Parley.Text
