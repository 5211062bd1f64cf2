import Parley.Draft
import Parley.Script.ArmLine
import Parley.Script.Calls
import Parley.Script.OptionLine
import Parley.Script.Speech

/-!
# Reading one statement into a draft

Each kind of construct has one step.  A step first decides whether the construct
may stand at its place, which depends on what was made last and on the
indentations of the open nodes, and then adds its node and links it.  Before any
step, the branches deeper than the statement are closed.
-/

namespace Parley.Draft

open Parley.Script
open Parley.Text

/-- Read the command block of a line, if there is one. -/
def readBlock (scope : Scope) : Option Chars → Except Fault (List Call)
  | some block => scope.readCommands block
  | none => .ok []

/-- Read a condition, if there is one. -/
def readGuard (scope : Scope) : Option Chars → Except Fault (List Call)
  | some source => scope.readConditions source
  | none => .ok []

/-- Begin a dialogue.  The dialogue before it is closed, and its open nodes are
forgotten. -/
def stepTitle (draft : Draft) (statement : Statement) : Except Fault Draft :=
  let name := trim (statement.content.drop 1)
  let title := String.ofList name
  let closed := draft.closeDialogue
  if name = [] then .error (.malformed .missingTitle)
  else if title ∈ closed.declared then .error (.malformed (.duplicateTitle title))
  else
    .ok {
      graph := closed.graph
      declared := title :: closed.declared
      title := some title
      latest := .title
      lines := []
      strays := []
      choices := []
      branches := [] }

/-- The line under which an option at an indentation is offered. -/
def optionRoot (draft : Draft) (indent : Nat) : Except Fault LineIndex :=
  if draft.latest = .line ∨ draft.latest = .choice then
    match draft.lines with
    | [] => .error (.malformed .misplacedOption)
    | root :: _ =>
        if root.indent = indent then .ok root.id else .error (.malformed .optionIndent)
  else .error (.malformed .misplacedOption)

/-- If the last node is a choice, it has got no body and never will. -/
def finishBodiless (draft : Draft) : Draft :=
  if draft.latest = .choice then
    match draft.choices with
    | bodiless :: outer => { draft with choices := outer }.endChoice bodiless
    | [] => draft
  else draft

/-- Add a choice under a line. -/
def addChoiceUnder (draft : Draft) (choice : Choice) : Draft :=
  let id := draft.graph.choices.size
  { draft with
    graph := (draft.graph.addChoice choice).modifyLine choice.root
      fun root => { root with choices := root.choices ++ [id] } }

/-- Offer a choice. -/
def stepOption (scope : Scope) (draft : Draft) (statement : Statement) : Except Fault Draft := do
  let option ← OptionLine.read statement.content
  let commands ← readBlock scope option.block
  let conditions ← readGuard scope option.condition
  let draft := draft.abandonDeepLines statement.indent
  let root ← draft.optionRoot statement.indent
  let id := draft.graph.choices.size
  let draft := draft.addChoiceUnder (Choice.fresh option.text conditions commands root)
  let draft := draft.finishBodiless.leaveChoices statement.indent
  if option.terminal then
    return draft
  else
    return { draft with choices := ⟨id, statement.indent⟩ :: draft.choices, latest := .choice }

/-- Whether a branch may begin at an indentation. -/
def checkIfArm (draft : Draft) (indent : Nat) : Except Fault Unit := do
  let expected ←
    match draft.latest with
    | .title => pure 0
    | .line => topIndent draft.lines .lineIndent
    | .choice => (· + 1) <$> topIndent draft.choices .noOpenOption
    | .nothing | .branch => throw (.malformed .misplacedBranch)
  if expected = indent then return () else throw (.malformed .branchIndent)

/-- Let a branch follow what was made last; at the start of a dialogue that is a
relay made for it. -/
def attachBranch (draft : Draft) (title : String) (branch : BranchIndex) : Draft :=
  match draft.latest with
  | .title =>
      let relay := draft.graph.lines.size
      { draft with
        graph := (draft.graph.addLine { Line.relay with branch := some branch }).addEntry
          title relay }
  | .choice =>
      match draft.choices with
      | choice :: _ =>
          { draft with
            graph := draft.graph.modifyChoice choice.id
              fun held => { held with branch := some branch } }
      | [] => draft
  | .nothing | .line | .branch =>
      match draft.lines with
      | owner :: _ =>
          { draft with
            graph := draft.graph.modifyLine owner.id
              fun held => { held with branch := some branch } }
      | [] => draft

/-- Begin a branch with its first arm. -/
def stepIfArm (scope : Scope) (draft : Draft) (statement : Statement) : Except Fault Draft := do
  let title ← draft.currentTitle
  draft.checkIfArm statement.indent
  match ← ArmLine.read statement.content with
  | none => throw (.malformed .bareIf)
  | some source =>
      let conditions ← scope.readConditions source
      let branch := draft.graph.branches.size
      let draft := { draft with
        graph := draft.graph.addBranch ⟨[⟨conditions, none⟩]⟩
        branches := ⟨branch, statement.indent⟩ :: draft.branches }
      return { (draft.attachBranch title branch).dedent statement.indent with latest := .branch }

/-- The open branch at an indentation. -/
def branchAt (draft : Draft) (indent : Nat) : Except Fault BranchIndex :=
  match draft.branches with
  | branch :: _ =>
      if branch.indent = indent then .ok branch.id else .error (.malformed .elseWithoutIf)
  | [] => .error (.malformed .elseWithoutIf)

/-- Whether a branch may get a further arm. -/
def checkElseArm (draft : Draft) (branch : BranchIndex) : Except Fault Unit :=
  if draft.latest = .line ∨ draft.latest = .choice then
    if (draft.graph.branch branch).isExhaustive then .error (.malformed .elseAfterElse)
    else .ok ()
  else .error (.malformed .misplacedElse)

/-- Add an arm to the open branch. -/
def stepElseArm (scope : Scope) (draft : Draft) (statement : Statement) : Except Fault Draft := do
  let source ← ArmLine.read statement.content
  let branch ← draft.branchAt statement.indent
  draft.checkElseArm branch
  let conditions ← readGuard scope source
  let draft := { draft with
    graph := draft.graph.modifyBranch branch fun held => held.addArm conditions none }
  return { draft.dedent statement.indent with latest := .branch }

/-- A line that is not deeper than the last choice shows that the choice has no
body.  The choice stays open until the line closes it. -/
def settleChoice (draft : Draft) (indent : Nat) : Draft :=
  if draft.latest = .choice then
    match draft.choices with
    | choice :: _ =>
        if indent ≤ choice.indent then { draft.endChoice choice with latest := .line }
        else draft
    | [] => draft
  else draft

/-- Whether a spoken line may stand at an indentation. -/
def checkSpeech (draft : Draft) (indent : Nat) : Except Fault Unit := do
  let fits ←
    match draft.latest with
    | .title => pure (indent == 0)
    | .line => do
        let expected ← topIndent draft.lines .lineIndent
        pure (expected == indent || draft.isNearOpenNode indent)
    | .branch => do
        let outer ← topIndent draft.branches .noOpenBranch
        pure (outer + 1 == indent)
    | .choice => do
        let outer ← topIndent draft.choices .noOpenOption
        pure (outer + 1 == indent)
    | .nothing => pure false
  if fits then return () else throw (.malformed .lineIndent)

/-- Let a spoken line follow what was made last.  After a line, it also follows
the lines left behind that are at least as deep as it is. -/
def attachSpeech (draft : Draft) (title : String) (id : LineIndex) (indent : Nat) :
    Except Fault Draft :=
  match draft.latest with
  | .nothing => .ok draft
  | .title => .ok { draft with graph := draft.graph.addEntry title id }
  | .line =>
      match draft.lines with
      | [] => .error (.malformed .lineIndent)
      | earlier :: waiting =>
          .ok ({ draft with
            graph := draft.graph.setNext earlier.id id
            lines := waiting }.linkStrays (fun stray => indent ≤ stray.indent) id)
  | .choice =>
      match draft.choices with
      | choice :: _ =>
          .ok { draft with
            graph := draft.graph.modifyChoice choice.id
              fun held => { held with next := some id } }
      | [] => .ok draft
  | .branch =>
      match draft.branches with
      | branch :: _ =>
          .ok { draft with
            graph := draft.graph.modifyBranch branch.id fun held => held.setLastBody id }
      | [] => .ok draft

/-- The line to which a number of return markers leads: the root of the choice
that many levels up. -/
def markedRoot (draft : Draft) (depth : Nat) : Except Fault LineIndex :=
  match draft.choices.drop (depth - 1) with
  | choice :: _ => .ok (draft.graph.choice choice.id).root
  | [] => .error (.malformed (.returnTooFar depth draft.choices.length))

/-- Let a spoken line wait for its successor, or follow its return markers. -/
def directSpeech (draft : Draft) (id : LineIndex) (indent depth : Nat) : Except Fault Draft :=
  if depth = 0 then .ok { draft with lines := ⟨id, indent⟩ :: draft.lines }
  else
    match draft.markedRoot depth with
    | .error fault => .error fault
    | .ok target => .ok { draft with graph := draft.graph.setNext id target }

/-- Let a spoken line follow the deeper lines left behind, unless an open choice
still owns them. -/
def gatherStrays (draft : Draft) (id : LineIndex) (indent : Nat) : Draft :=
  if draft.choices.isEmpty then draft.linkStrays (fun stray => indent < stray.indent) id
  else draft

/-- Add a spoken line. -/
def stepSpeech (scope : Scope) (draft : Draft) (statement : Statement) : Except Fault Draft := do
  let title ← draft.currentTitle
  let draft := draft.settleChoice statement.indent
  draft.checkSpeech statement.indent
  let draft := draft.closeBranchAt statement.indent
  let speech ← Speech.read statement.content
  let commands ← readBlock scope speech.block
  let id := draft.graph.lines.size
  let draft := { draft with
    graph := draft.graph.addLine
      (Line.spoken speech.speaker speech.text speech.expression commands) }
  let draft ← draft.attachSpeech title id statement.indent
  let draft ← (draft.dedent statement.indent).directSpeech id statement.indent speech.returnDepth
  return { draft.gatherStrays id statement.indent with latest := .line }

/-- Read a statement. -/
def step (scope : Scope) (draft : Draft) (statement : Statement) : Except Fault Draft :=
  let draft := draft.closeDeepBranches statement.indent
  match statement.construct with
  | .dialogue => draft.stepTitle statement
  | .option => draft.stepOption scope statement
  | .ifArm => draft.stepIfArm scope statement
  | .elseArm => draft.stepElseArm scope statement
  | .speech => draft.stepSpeech scope statement

end Parley.Draft
