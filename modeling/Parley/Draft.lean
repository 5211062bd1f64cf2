import Parley.Graph
import Parley.Script.Statement

/-!
# Drafts

A draft is a graph under construction: the graph so far together with the nodes
that later statements may still continue.  Open nodes are kept in stacks, the
innermost first, each with the indentation that decides when it is closed.

The operations here open, close and link nodes.  They never fail; whether a
statement may stand where it stands is decided elsewhere.
-/

namespace Parley

/-- An open node and its indentation. -/
structure OpenNode where
  id : Nat
  indent : Nat
  deriving DecidableEq, Repr

/-- What a statement is judged against: the kind of node that was made last. -/
inductive Latest where
  | nothing
  | title
  | line
  | choice
  | branch
  deriving DecidableEq, Repr

/-- A graph under construction. -/
structure Draft where
  graph : Graph
  /-- The titles declared so far. -/
  declared : List String
  /-- The dialogue that is being read. -/
  title : Option String
  latest : Latest
  /-- Lines that wait for their successor. -/
  lines : List OpenNode
  /-- Lines that a shallower line has left behind; they are linked forward later. -/
  strays : List OpenNode
  /-- Choices whose body is being read. -/
  choices : List OpenNode
  /-- Branches that may still get an arm. -/
  branches : List OpenNode
  deriving DecidableEq

namespace Draft

/-- Nothing has been read. -/
def empty : Draft where
  graph := .empty
  declared := []
  title := none
  latest := .nothing
  lines := []
  strays := []
  choices := []
  branches := []

/-- Close the choices at an indentation and deeper. -/
def leaveChoices (draft : Draft) (indent : Nat) : Draft :=
  { draft with choices := draft.choices.dropWhile fun choice => indent ≤ choice.indent }

/-- Leave the waiting lines deeper than an indentation behind. -/
def abandonDeepLines (draft : Draft) (indent : Nat) : Draft :=
  { draft with
    lines := draft.lines.dropWhile fun line => indent < line.indent
    strays :=
      (draft.lines.takeWhile fun line => indent < line.indent).reverse ++ draft.strays }

/-- Leave the nodes deeper than an indentation and close the choices at it. -/
def dedent (draft : Draft) (indent : Nat) : Draft :=
  (draft.abandonDeepLines indent).leaveChoices indent

/-- Let the lines left behind that satisfy `ready`, up to the first that does
not, be followed by a line. -/
def linkStrays (draft : Draft) (ready : OpenNode → Bool) (next : LineIndex) : Draft :=
  { draft with
    graph := (draft.strays.takeWhile ready).foldl
      (fun graph stray => graph.setNext stray.id next) draft.graph
    strays := draft.strays.dropWhile ready }

/-- Give a branch an arm without conditions that leads to a relay.  The relay
waits for its successor like the last line of an arm. -/
def addDefaultArm (draft : Draft) (branch : OpenNode) : Draft :=
  let relay := draft.graph.lines.size
  { draft with
    graph := (draft.graph.addLine .relay).modifyBranch branch.id
      fun held => held.addArm [] (some relay)
    lines := ⟨relay, branch.indent + 1⟩ :: draft.lines
    latest := .line }.leaveChoices (branch.indent + 1)

/-- Make sure that a branch which is closed has an arm without conditions. -/
def completeBranch (draft : Draft) (branch : OpenNode) : Draft :=
  if (draft.graph.branch branch.id).isExhaustive then draft else draft.addDefaultArm branch

/-- Close the branches deeper than an indentation, from the innermost outward. -/
def closeDeepBranches (draft : Draft) (indent : Nat) : Draft :=
  (draft.branches.takeWhile fun branch => indent < branch.indent).foldl completeBranch
    { draft with branches := draft.branches.dropWhile fun branch => indent < branch.indent }

/-- Close the innermost branch if it stands exactly at an indentation. -/
def closeBranchAt (draft : Draft) (indent : Nat) : Draft :=
  match draft.branches with
  | branch :: outer =>
      if branch.indent = indent then { draft with branches := outer }.completeBranch branch
      else draft
  | [] => draft

/-- Close every branch: the dialogue ends here. -/
def closeDialogue (draft : Draft) : Draft :=
  draft.branches.foldl completeBranch { draft with branches := [] }

/-- Let a choice without a body lead to a relay that is left behind. -/
def endChoice (draft : Draft) (choice : OpenNode) : Draft :=
  let relay := draft.graph.lines.size
  { draft with
    graph := (draft.graph.addLine .relay).modifyChoice choice.id
      fun held => { held with next := some relay }
    strays := ⟨relay, choice.indent + 1⟩ :: draft.strays }

/-- The title of the dialogue that is being read. -/
def currentTitle (draft : Draft) : Except Fault String :=
  match draft.title with
  | some title => .ok title
  | none => .error (.malformed .outsideDialogue)

/-- The indentation of the innermost node of a stack, which may not be empty. -/
def topIndent (stack : List OpenNode) (cause : Malformation) : Except Fault Nat :=
  match stack with
  | top :: _ => .ok top.indent
  | [] => .error (.malformed cause)

/-- Whether an indentation is at most one level away from the innermost node of
a stack. -/
def isNear (stack : List OpenNode) (indent : Nat) : Bool :=
  match stack with
  | top :: _ => top.indent ≤ indent + 1 && indent ≤ top.indent + 1
  | [] => false

/-- Whether an indentation lies within one level of the innermost open
branch or choice. -/
def isNearOpenNode (draft : Draft) (indent : Nat) : Bool :=
  isNear draft.branches indent || isNear draft.choices indent

@[simp]
theorem closeDeepBranches_of_nil (draft : Draft) (indent : Nat)
    (closed : draft.branches = []) : draft.closeDeepBranches indent = draft := by
  obtain ⟨graph, declared, title, latest, lines, strays, choices, branches⟩ := draft
  subst closed
  rfl

end Draft

end Parley
