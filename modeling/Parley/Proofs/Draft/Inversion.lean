import Parley.Compilation

/-!
# When a statement can be read, and what it leaves behind

Each step decides whether its construct may stand where it stands and then edits
the draft.  The lemmas here separate the two: a step succeeds exactly if its
reading and its checks do, and then the result is a plain edit without failure.
Everything proved about steps starts from these lemmas.
-/

namespace Parley.Draft

open Parley.Script
open Parley.Text

variable {scope : Scope} {draft next : Draft} {statement : Statement}

/-- The draft in which a new dialogue begins. -/
def beginDialogue (draft : Draft) (title : String) : Draft where
  graph := draft.closeDialogue.graph
  declared := title :: draft.closeDialogue.declared
  title := some title
  latest := .title
  lines := []
  strays := []
  choices := []
  branches := []

/-- The draft in which an option has been offered. -/
def offer (draft : Draft) (choice : Choice) (terminal : Bool) (indent : Nat) : Draft :=
  let settled := (draft.addChoiceUnder choice).finishBodiless.leaveChoices indent
  if terminal then settled
  else
    { settled with
      choices := ⟨draft.graph.choices.size, indent⟩ :: settled.choices
      latest := .choice }

/-- The draft in which a branch has been opened. -/
def openBranch (draft : Draft) (title : String) (conditions : List Call) (indent : Nat) : Draft :=
  let branch := draft.graph.branches.size
  let added := { draft with
    graph := draft.graph.addBranch ⟨[⟨conditions, none⟩]⟩
    branches := ⟨branch, indent⟩ :: draft.branches }
  { (added.attachBranch title branch).dedent indent with latest := .branch }

/-- The draft in which a branch has got a further arm. -/
def extendBranch (draft : Draft) (branch : BranchIndex) (conditions : List Call)
    (indent : Nat) : Draft :=
  let added := { draft with
    graph := draft.graph.modifyBranch branch fun held => held.addArm conditions none }
  { added.dedent indent with latest := .branch }

/-- The draft in which a spoken line can take its place, once the branches deeper
than the line are closed. -/
def makeRoom (draft : Draft) (indent : Nat) : Draft :=
  (draft.settleChoice indent).closeBranchAt indent

/-- A draft whose graph has got one more line. -/
def addLine (draft : Draft) (line : Line) : Draft :=
  { draft with graph := draft.graph.addLine line }

theorem stepTitle_eq_ok_iff :
    draft.stepTitle statement = .ok next ↔
      ∃ title, title = String.ofList (trim (statement.content.drop 1)) ∧
        trim (statement.content.drop 1) ≠ [] ∧ title ∉ draft.closeDialogue.declared ∧
        next = draft.beginDialogue title := by
  simp only [stepTitle]
  constructor
  · intro done
    split at done
    · cases done
    · rename_i named
      split at done
      · cases done
      · rename_i new
        cases done
        exact ⟨_, rfl, named, new, rfl⟩
  · rintro ⟨title, rfl, named, new, rfl⟩
    rw [if_neg named, if_neg new]
    rfl

theorem stepOption_eq_ok_iff :
    draft.stepOption scope statement = .ok next ↔
      ∃ option commands conditions root,
        OptionLine.read statement.content = .ok option ∧
        readBlock scope option.block = .ok commands ∧
        readGuard scope option.condition = .ok conditions ∧
        (draft.abandonDeepLines statement.indent).optionRoot statement.indent = .ok root ∧
        next = (draft.abandonDeepLines statement.indent).offer
          (Choice.fresh option.text conditions commands root) option.terminal
          statement.indent := by
  simp only [stepOption, bind_eq_ok_iff]
  constructor
  · rintro ⟨option, read, commands, readCommands, conditions, readConditions, root, found, same⟩
    refine ⟨option, commands, conditions, root, read, readCommands, readConditions, found, ?_⟩
    unfold offer
    split at same <;> rename_i terminal <;> cases same <;> simp [terminal]
  · rintro ⟨option, commands, conditions, root, read, readCommands, readConditions, found, rfl⟩
    refine ⟨option, read, commands, readCommands, conditions, readConditions, root, found, ?_⟩
    unfold offer
    split <;> rfl

theorem stepIfArm_eq_ok_iff :
    draft.stepIfArm scope statement = .ok next ↔
      ∃ title source conditions,
        draft.currentTitle = .ok title ∧
        draft.checkIfArm statement.indent = .ok () ∧
        ArmLine.read statement.content = .ok (some source) ∧
        scope.readConditions source = .ok conditions ∧
        next = draft.openBranch title conditions statement.indent := by
  simp only [stepIfArm, bind_eq_ok_iff]
  constructor
  · rintro ⟨title, current, _, fits, source, read, done⟩
    cases source with
    | none => cases done
    | some source =>
        obtain ⟨conditions, readConditions, same⟩ := bind_eq_ok_iff.mp done
        cases same
        exact ⟨title, source, conditions, current, fits, read, readConditions, rfl⟩
  · rintro ⟨title, source, conditions, current, fits, read, readConditions, rfl⟩
    exact ⟨title, current, (), fits, some source, read,
      bind_eq_ok_iff.mpr ⟨conditions, readConditions, rfl⟩⟩

theorem stepElseArm_eq_ok_iff :
    draft.stepElseArm scope statement = .ok next ↔
      ∃ source branch conditions,
        ArmLine.read statement.content = .ok source ∧
        draft.branchAt statement.indent = .ok branch ∧
        draft.checkElseArm branch = .ok () ∧
        readGuard scope source = .ok conditions ∧
        next = draft.extendBranch branch conditions statement.indent := by
  simp only [stepElseArm, bind_eq_ok_iff]
  constructor
  · rintro ⟨source, read, branch, found, _, fits, conditions, readConditions, same⟩
    cases same
    exact ⟨source, branch, conditions, read, found, fits, readConditions, rfl⟩
  · rintro ⟨source, branch, conditions, read, found, fits, readConditions, rfl⟩
    exact ⟨source, read, branch, found, (), fits, conditions, readConditions, rfl⟩

/-- Read a spoken line as if it carried another number of return markers. -/
def stepRemarked (scope : Scope) (draft : Draft) (statement : Statement) (marks : Nat → Nat) :
    Except Fault Draft := do
  let title ← draft.currentTitle
  let draft := draft.settleChoice statement.indent
  draft.checkSpeech statement.indent
  let draft := draft.closeBranchAt statement.indent
  let speech ← Speech.read statement.content
  let commands ← readBlock scope speech.block
  let id := draft.graph.lines.size
  let draft := { draft with
    graph := draft.graph.addLine
      (Line.spoken speech.speaker speech.text speech.expression commands) }
  let draft ← draft.attachSpeech title id statement.indent
  let draft ← (draft.dedent statement.indent).directSpeech id statement.indent
    (marks speech.returnDepth)
  return { draft.gatherStrays id statement.indent with latest := .line }

theorem stepSpeech_eq_stepRemarked :
    draft.stepSpeech scope statement = draft.stepRemarked scope statement id :=
  rfl

theorem stepRemarked_eq_ok_iff {marks : Nat → Nat} :
    draft.stepRemarked scope statement marks = .ok next ↔
      ∃ title speech commands attached directed,
        draft.currentTitle = .ok title ∧
        (draft.settleChoice statement.indent).checkSpeech statement.indent = .ok () ∧
        Speech.read statement.content = .ok speech ∧
        readBlock scope speech.block = .ok commands ∧
        ((draft.makeRoom statement.indent).addLine
            (Line.spoken speech.speaker speech.text speech.expression commands)).attachSpeech
          title (draft.makeRoom statement.indent).graph.lines.size statement.indent =
            .ok attached ∧
        (attached.dedent statement.indent).directSpeech
          (draft.makeRoom statement.indent).graph.lines.size statement.indent
            (marks speech.returnDepth) = .ok directed ∧
        next = { directed.gatherStrays
          (draft.makeRoom statement.indent).graph.lines.size statement.indent with
            latest := .line } := by
  simp only [stepRemarked, bind_eq_ok_iff]
  constructor
  · rintro ⟨title, current, _, fits, speech, read, commands, readCommands, attached, attach,
      directed, direct, same⟩
    cases same
    exact ⟨title, speech, commands, attached, directed, current, fits, read, readCommands,
      attach, direct, rfl⟩
  · rintro ⟨title, speech, commands, attached, directed, current, fits, read, readCommands,
      attach, direct, rfl⟩
    exact ⟨title, current, (), fits, speech, read, commands, readCommands, attached, attach,
      directed, direct, rfl⟩

theorem stepSpeech_eq_ok_iff :
    draft.stepSpeech scope statement = .ok next ↔
      ∃ title speech commands attached directed,
        draft.currentTitle = .ok title ∧
        (draft.settleChoice statement.indent).checkSpeech statement.indent = .ok () ∧
        Speech.read statement.content = .ok speech ∧
        readBlock scope speech.block = .ok commands ∧
        ((draft.makeRoom statement.indent).addLine
            (Line.spoken speech.speaker speech.text speech.expression commands)).attachSpeech
          title (draft.makeRoom statement.indent).graph.lines.size statement.indent =
            .ok attached ∧
        (attached.dedent statement.indent).directSpeech
          (draft.makeRoom statement.indent).graph.lines.size statement.indent
            speech.returnDepth = .ok directed ∧
        next = { directed.gatherStrays
          (draft.makeRoom statement.indent).graph.lines.size statement.indent with
            latest := .line } := by
  rw [stepSpeech_eq_stepRemarked]
  exact @stepRemarked_eq_ok_iff scope draft next statement id

/-- Only a branch that lacks an arm without conditions may get a further arm. -/
theorem incomplete_of_checkElseArm {branch : BranchIndex}
    (fits : draft.checkElseArm branch = .ok ()) :
    (draft.graph.branch branch).isExhaustive = false := by
  unfold checkElseArm at fits
  split at fits
  · split at fits
    · cases fits
    · rename_i incomplete
      simpa using incomplete
  · cases fits

/-- The branch at an indentation is the innermost open one, if that stands there. -/
theorem branchAt_eq_ok_iff {indent : Nat} {branch : BranchIndex} :
    draft.branchAt indent = .ok branch ↔ ∃ outer, draft.branches = ⟨branch, indent⟩ :: outer := by
  unfold branchAt
  constructor
  · intro found
    split at found
    · rename_i node outer stack
      split at found
      · rename_i level
        cases found
        exact ⟨outer, by rw [stack, ← level]⟩
      · cases found
    · cases found
  · rintro ⟨outer, stack⟩
    rw [stack]
    exact if_pos rfl

/-- The branch at an indentation is open. -/
theorem exists_of_branchAt {indent : Nat} {branch : BranchIndex}
    (found : draft.branchAt indent = .ok branch) : ∃ node ∈ draft.branches, node.id = branch := by
  obtain ⟨outer, stack⟩ := branchAt_eq_ok_iff.mp found
  exact ⟨⟨branch, indent⟩, stack ▸ List.mem_cons_self, rfl⟩

/-- Reading statements succeeds exactly if the first of them and then the others
can be read. -/
theorem stepAll_cons_eq_ok_iff {rest : List Statement} :
    draft.stepAll scope (statement :: rest) = .ok next ↔
      ∃ middle, draft.step scope statement = .ok middle ∧ middle.stepAll scope rest = .ok next := by
  simp only [stepAll]
  cases draft.step scope statement with
  | error fault => simp
  | ok middle => simp

/-- Reading statements one part after the other. -/
theorem stepAll_append_eq_ok_iff {first second : List Statement} :
    draft.stepAll scope (first ++ second) = .ok next ↔
      ∃ middle, draft.stepAll scope first = .ok middle ∧
        middle.stepAll scope second = .ok next := by
  rw [stepAll_append]
  cases draft.stepAll scope first with
  | error diagnostic => simp
  | ok middle => simp

/-- A finished draft gives its graph, once all its branches are closed. -/
theorem finish_eq_ok_iff {graph : Graph} :
    draft.finish = .ok graph ↔
      graph = draft.closeDialogue.graph ∧ graph.entries.isEmpty = false := by
  simp only [finish]
  constructor
  · intro done
    split at done
    · cases done
    · rename_i populated
      cases done
      exact ⟨rfl, by simpa using populated⟩
  · rintro ⟨rfl, populated⟩
    simp [populated]

end Parley.Draft
