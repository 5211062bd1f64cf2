import Parley.Fault
import Parley.Graph
import Parley.Text.Nesting

/-!
# Spoken lines

A spoken line is written `speaker [[expression]]: text (commands) <-`.  The tag,
the command block and the return markers are optional; return markers may stand
before the block, after it, or both.  In the text, a backslash followed by `n`
stands for a line feed.
-/

namespace Parley.Script

open Parley.Text

/-- The parts of a spoken line. -/
structure Speech where
  speaker : String
  text : String
  expression : String
  /-- The source of the command block. -/
  block : Option Chars
  /-- How many return markers the line carries. -/
  returnDepth : Nat
  deriving DecidableEq

namespace Speech

/-- Take return markers and blanks off the end of a text that is given in
reverse. -/
def dropMarkersReversed : Chars → Chars × Nat
  | [] => ([], 0)
  | '-' :: '<' :: rest =>
      let (kept, depth) := dropMarkersReversed rest
      (kept, depth + 1)
  | c :: rest => if isBlank c then dropMarkersReversed rest else (c :: rest, 0)

/-- Take return markers and blanks off the end of a text, and count the
markers. -/
def takeMarkers (text : Chars) : Chars × Nat :=
  let (kept, depth) := dropMarkersReversed text.reverse
  (kept.reverse, depth)

/-- The rest of a tag that has been opened: what it holds up to the first
closing pair of brackets, and what follows.  A tag stays within its line. -/
def closeTag : Chars → Option (Chars × Chars)
  | [] => none
  | ']' :: ']' :: rest => some ([], rest)
  | c :: rest =>
      if c = '\n' then none
      else (closeTag rest).map fun (inner, after) => (c :: inner, after)

/-- The tag that opens a text. -/
def leadingTag? : Chars → Option (Chars × Chars)
  | '[' :: '[' :: rest => closeTag rest
  | _ => none

/-- The first tag of a text: what stands before it, in it and after it. -/
def findTag? : Chars → Option (Chars × Chars × Chars)
  | [] => none
  | c :: rest =>
      match leadingTag? (c :: rest) with
      | some (inner, after) => some ([], inner, after)
      | none =>
          (findTag? rest).map fun (before, inner, after) => (c :: before, inner, after)

/-- Take the first tag out of a text and give the expression it names; an empty
tag and no tag name the neutral one. -/
def takeTag (text : Chars) : Chars × String :=
  match findTag? text with
  | some (before, inner, after) =>
      let name := trim inner
      (before ++ after, if name = [] then neutral else String.ofList name)
  | none => (text, neutral)

/-- Turn every backslash followed by `n` into a line feed. -/
def unescape : Chars → Chars
  | [] => []
  | '\\' :: 'n' :: rest => '\n' :: unescape rest
  | c :: rest => c :: unescape rest

/-- Read a spoken line. -/
def read (content : Chars) : Except Fault Speech :=
  let (marked, trailing) := takeMarkers content
  let (spoken, block) := takeFinalGroup marked
  let (tagged, inner) := takeMarkers spoken
  let (plain, expression) := takeTag tagged
  match cutAt? ':' plain with
  | none => .error (.malformed (.speakerMissing (String.ofList content)))
  | some (before, after) =>
      let speaker := trim before
      let text := trim after
      if speaker = [] ∨ text = [] then
        .error (.malformed (.speechEmpty (String.ofList content)))
      else
        .ok {
          speaker := String.ofList speaker
          text := String.ofList (unescape text)
          expression := expression
          block := block
          returnDepth := trailing + inner }

end Speech

end Parley.Script
