import Parley.Proofs.Draft.Titles
import Parley.Proofs.Graph.Append

/-!
# Reading behind a finished script

A dialogue that begins forgets all nodes that are open.  So what is read from there on is what
would have been read without the script before it, with its nodes behind those of that script.
-/

namespace Parley

open Parley.Script
open Parley.Text

/-- An open node with a number of nodes before it. -/
def OpenNode.shift (size : Nat) (node : OpenNode) : OpenNode :=
  ⟨size + node.id, node.indent⟩

namespace Draft

/-- A draft behind a finished graph, whose titles are taken. -/
def onto (base : Graph) (titles : List String) (draft : Draft) : Draft where
  graph := base.append draft.graph
  declared := draft.declared ++ titles
  title := draft.title
  latest := draft.latest
  lines := draft.lines.map (OpenNode.shift base.lines.size)
  strays := draft.strays.map (OpenNode.shift base.lines.size)
  choices := draft.choices.map (OpenNode.shift base.choices.size)
  branches := draft.branches.map (OpenNode.shift base.branches.size)

section Operations

variable (base : Graph) (titles : List String) (draft : Draft)

theorem onto_leaveChoices (indent : Nat) :
    (draft.onto base titles).leaveChoices indent =
      (draft.leaveChoices indent).onto base titles := by
  simp only [leaveChoices, onto, List.dropWhile_map]
  rfl

theorem onto_abandonDeepLines (indent : Nat) :
    (draft.onto base titles).abandonDeepLines indent =
      (draft.abandonDeepLines indent).onto base titles := by
  simp only [abandonDeepLines, onto, List.dropWhile_map, List.takeWhile_map, List.map_append,
    List.map_reverse]
  rfl

theorem onto_dedent (indent : Nat) :
    (draft.onto base titles).dedent indent = (draft.dedent indent).onto base titles := by
  rw [dedent, onto_abandonDeepLines, onto_leaveChoices, dedent]

theorem append_foldl_setNext (graph : Graph) (nodes : List OpenNode) (next : LineIndex) :
    (nodes.map (OpenNode.shift base.lines.size)).foldl
        (fun graph stray => graph.setNext stray.id (base.lines.size + next)) (base.append graph) =
      base.append (nodes.foldl (fun graph stray => graph.setNext stray.id next) graph) := by
  induction nodes generalizing graph with
  | nil => rfl
  | cons node rest ih =>
      rw [List.map_cons, List.foldl_cons, List.foldl_cons, ← ih]
      exact congrArg (List.foldl _ · _) (base.append_setNext graph node.id next)

/-- Which strays are ready must depend on their indentation alone. -/
theorem onto_linkStrays {ready : OpenNode → Bool}
    (level : ∀ node, ready (node.shift base.lines.size) = ready node) (next : LineIndex) :
    (draft.onto base titles).linkStrays ready (base.lines.size + next) =
      (draft.linkStrays ready next).onto base titles := by
  have same : ready ∘ OpenNode.shift base.lines.size = ready := funext level
  simp only [linkStrays, onto, List.dropWhile_map, List.takeWhile_map, same, append_foldl_setNext]

/-! ## Closing -/

theorem onto_addDefaultArm (branch : OpenNode) :
    (draft.onto base titles).addDefaultArm (branch.shift base.branches.size) =
      (draft.addDefaultArm branch).onto base titles := by
  have relayed := base.append_addLine draft.graph Line.relay
  have added := base.append_modifyBranch (draft.graph.addLine Line.relay) branch.id
    (fun held => held.addArm [] (some draft.graph.lines.size))
    (fun held => held.addArm [] (some (base.lines.size + draft.graph.lines.size)))
    (fun held => held.addArm_shift base [] (some draft.graph.lines.size))
  simp only [addDefaultArm, ← onto_leaveChoices]
  simp only [onto, Graph.size_lines_append, ← added, ← relayed]
  rfl

theorem onto_completeBranch (branch : OpenNode) :
    (draft.onto base titles).completeBranch (branch.shift base.branches.size) =
      (draft.completeBranch branch).onto base titles := by
  have same : ((draft.onto base titles).graph.branch
      (branch.shift base.branches.size).id).isExhaustive =
        (draft.graph.branch branch.id).isExhaustive := by
    rw [← Branch.isExhaustive_shift base (draft.graph.branch branch.id), ← Graph.branch_append_add]
    rfl
  rw [completeBranch, completeBranch, same]
  split
  · rfl
  · exact onto_addDefaultArm base titles draft branch

theorem onto_foldl_completeBranch (closed : List OpenNode) :
    (closed.map (OpenNode.shift base.branches.size)).foldl completeBranch
        (draft.onto base titles) =
      (closed.foldl completeBranch draft).onto base titles := by
  induction closed generalizing draft with
  | nil => rfl
  | cons branch rest ih =>
      rw [List.map_cons, List.foldl_cons, List.foldl_cons, onto_completeBranch, ih]

theorem onto_closeDeepBranches (indent : Nat) :
    (draft.onto base titles).closeDeepBranches indent =
      (draft.closeDeepBranches indent).onto base titles := by
  rw [closeDeepBranches, closeDeepBranches, ← onto_foldl_completeBranch]
  simp only [onto, List.dropWhile_map, List.takeWhile_map]
  rfl

theorem onto_closeBranchAt (indent : Nat) :
    (draft.onto base titles).closeBranchAt indent =
      (draft.closeBranchAt indent).onto base titles := by
  unfold closeBranchAt
  rcases stack : draft.branches with _ | ⟨branch, outer⟩
  · simp only [onto, stack, List.map_nil]
  · simp only [onto, stack, List.map_cons, OpenNode.shift]
    split
    · exact onto_completeBranch base titles { draft with branches := outer } branch
    · simp only [stack, List.map_cons, OpenNode.shift]

theorem onto_closeDialogue :
    (draft.onto base titles).closeDialogue = draft.closeDialogue.onto base titles := by
  rw [closeDialogue, closeDialogue, ← onto_foldl_completeBranch]
  rfl

theorem onto_endChoice (choice : OpenNode) :
    (draft.onto base titles).endChoice (choice.shift base.choices.size) =
      (draft.endChoice choice).onto base titles := by
  have relayed := base.append_addLine draft.graph Line.relay
  have ended := base.append_modifyChoice (draft.graph.addLine Line.relay) choice.id
    (fun held => { held with next := some draft.graph.lines.size })
    (fun held => { held with next := some (base.lines.size + draft.graph.lines.size) })
    (fun _ => rfl)
  simp only [endChoice, onto, Graph.size_lines_append, ← ended, ← relayed]
  rfl

/-! ## Checks -/

theorem topIndent_map (size : Nat) (stack : List OpenNode) (cause : Malformation) :
    topIndent (stack.map (OpenNode.shift size)) cause = topIndent stack cause := by
  cases stack <;> rfl

theorem isNear_map (size : Nat) (stack : List OpenNode) (indent : Nat) :
    isNear (stack.map (OpenNode.shift size)) indent = isNear stack indent := by
  cases stack <;> rfl

theorem onto_checkIfArm (indent : Nat) :
    (draft.onto base titles).checkIfArm indent = draft.checkIfArm indent := by
  simp only [checkIfArm, onto, topIndent_map]

theorem onto_checkElseArm (branch : BranchIndex) :
    (draft.onto base titles).checkElseArm (base.branches.size + branch) =
      draft.checkElseArm branch := by
  have same : ((draft.onto base titles).graph.branch (base.branches.size + branch)).isExhaustive =
      (draft.graph.branch branch).isExhaustive := by
    rw [← Branch.isExhaustive_shift base (draft.graph.branch branch), ← Graph.branch_append_add]
    rfl
  rw [checkElseArm, checkElseArm, same]
  rfl

theorem onto_checkSpeech (indent : Nat) :
    (draft.onto base titles).checkSpeech indent = draft.checkSpeech indent := by
  simp only [checkSpeech, isNearOpenNode, onto, topIndent_map, isNear_map]

theorem onto_branchAt (indent : Nat) :
    (draft.onto base titles).branchAt indent =
      (draft.branchAt indent).map (base.branches.size + ·) := by
  unfold branchAt
  rcases stack : draft.branches with _ | ⟨branch, outer⟩
  · simp only [onto, stack, List.map_nil]
    rfl
  · simp only [onto, stack, List.map_cons, OpenNode.shift]
    split <;> rfl

theorem onto_optionRoot (indent : Nat) :
    (draft.onto base titles).optionRoot indent =
      (draft.optionRoot indent).map (base.lines.size + ·) := by
  unfold optionRoot
  show (if draft.latest = .line ∨ draft.latest = .choice then _ else _) = _
  split
  · rcases stack : draft.lines with _ | ⟨line, outer⟩
    · simp only [onto, stack, List.map_nil]
      rfl
    · simp only [onto, stack, List.map_cons, OpenNode.shift]
      split <;> rfl
  · rfl

/-- The roots of choices that are there are moved like all lines. -/
theorem onto_markedRoot (known : ∀ choice ∈ draft.choices, choice.id < draft.graph.choices.size)
    (depth : Nat) :
    (draft.onto base titles).markedRoot depth =
      (draft.markedRoot depth).map (base.lines.size + ·) := by
  unfold markedRoot
  rcases stack : draft.choices.drop (depth - 1) with _ | ⟨choice, outer⟩
  · simp only [onto, ← List.map_drop, stack, List.map_nil, List.length_map]
    rfl
  · have open' : choice ∈ draft.choices :=
      List.mem_of_mem_drop (stack ▸ List.mem_cons_self)
    have moved := base.choice_append_add draft.graph (known choice open')
    simp only [onto, ← List.map_drop, stack, List.map_cons, OpenNode.shift, moved]
    rfl

/-! ## Choices -/

theorem onto_finishBodiless :
    (draft.onto base titles).finishBodiless = draft.finishBodiless.onto base titles := by
  unfold finishBodiless
  show (if draft.latest = .choice then _ else _) = _
  split
  · rcases stack : draft.choices with _ | ⟨choice, outer⟩
    · simp only [onto, stack, List.map_nil]
    · have ended := onto_endChoice base titles { draft with choices := outer } choice
      rw [← ended]
      simp only [onto, stack, List.map_cons]
  · rfl

theorem onto_settleChoice (indent : Nat) :
    (draft.onto base titles).settleChoice indent =
      (draft.settleChoice indent).onto base titles := by
  unfold settleChoice
  show (if draft.latest = .choice then _ else _) = _
  split
  · rcases stack : draft.choices with _ | ⟨choice, outer⟩
    · simp only [onto, stack, List.map_nil]
    · have ended := onto_endChoice base titles draft choice
      simp only [onto, stack, List.map_cons, OpenNode.shift] at ended ⊢
      split
      · simp only [ended]
      · simp only [stack, List.map_cons, OpenNode.shift]
  · rfl

theorem onto_addChoiceUnder (choice : Choice) :
    (draft.onto base titles).addChoiceUnder (choice.shift base) =
      (draft.addChoiceUnder choice).onto base titles := by
  have added := base.append_addChoice draft.graph choice
  have listed := base.append_modifyLine (draft.graph.addChoice choice) choice.root
    (fun root => { root with choices := root.choices ++ [draft.graph.choices.size] })
    (fun root => { root with
      choices := root.choices ++ [base.choices.size + draft.graph.choices.size] })
    (fun root => by simp [Line.shift])
  simp only [addChoiceUnder, onto, Graph.size_choices_append, ← listed, ← added]
  rfl

theorem onto_offer (choice : Choice) (terminal : Bool) (indent : Nat) :
    (draft.onto base titles).offer (choice.shift base) terminal indent =
      (draft.offer choice terminal indent).onto base titles := by
  unfold offer
  rw [onto_addChoiceUnder, onto_finishBodiless, onto_leaveChoices]
  split
  · rfl
  · simp only [onto, Graph.size_choices_append, List.map_cons, OpenNode.shift]

/-! ## Branches -/

theorem onto_attachBranch (title : String) (branch : BranchIndex) :
    (draft.onto base titles).attachBranch title (base.branches.size + branch) =
      (draft.attachBranch title branch).onto base titles := by
  unfold attachBranch
  rcases latest : draft.latest
  case title =>
    have relayed := base.append_addLine draft.graph { Line.relay with branch := some branch }
    have entered := base.append_addEntry
      (draft.graph.addLine { Line.relay with branch := some branch }) title draft.graph.lines.size
    simp only [onto, latest, Graph.size_lines_append, ← entered, ← relayed]
    rfl
  case choice =>
    rcases stack : draft.choices with _ | ⟨choice, outer⟩
    · simp only [onto, latest, stack, List.map_nil]
    · have begun := base.append_modifyChoice draft.graph choice.id
        (fun held => { held with branch := some branch })
        (fun held => { held with branch := some (base.branches.size + branch) })
        (fun _ => rfl)
      simp only [onto, latest, stack, List.map_cons, OpenNode.shift, begun]
  all_goals
    rcases stack : draft.lines with _ | ⟨owner, outer⟩
    · simp only [onto, latest, stack, List.map_nil]
    · have begun := base.append_modifyLine draft.graph owner.id
        (fun held => { held with branch := some branch })
        (fun held => { held with branch := some (base.branches.size + branch) })
        (fun _ => rfl)
      simp only [onto, latest, stack, List.map_cons, OpenNode.shift, begun]

theorem onto_openBranch (title : String) (conditions : List Call) (indent : Nat) :
    (draft.onto base titles).openBranch title conditions indent =
      (draft.openBranch title conditions indent).onto base titles := by
  have added := base.append_addBranch draft.graph ⟨[⟨conditions, none⟩]⟩
  have opened : { draft.onto base titles with
      graph := (draft.onto base titles).graph.addBranch ⟨[⟨conditions, none⟩]⟩
      branches := ⟨(draft.onto base titles).graph.branches.size, indent⟩ ::
        (draft.onto base titles).branches } =
      onto base titles { draft with
        graph := draft.graph.addBranch ⟨[⟨conditions, none⟩]⟩
        branches := ⟨draft.graph.branches.size, indent⟩ :: draft.branches } := by
    simp only [onto, Graph.size_branches_append, List.map_cons, OpenNode.shift, ← added]
    rfl
  have size : (draft.onto base titles).graph.branches.size =
      base.branches.size + draft.graph.branches.size :=
    base.size_branches_append draft.graph
  unfold openBranch
  simp only [opened]
  rw [size, onto_attachBranch, onto_dedent]
  rfl

theorem onto_extendBranch (branch : BranchIndex) (conditions : List Call) (indent : Nat) :
    (draft.onto base titles).extendBranch (base.branches.size + branch) conditions indent =
      (draft.extendBranch branch conditions indent).onto base titles := by
  have added := base.append_modifyBranch draft.graph branch
    (fun held => held.addArm conditions none) (fun held => held.addArm conditions none)
    (fun held => held.addArm_shift base conditions none)
  have extended : { draft.onto base titles with
      graph := (draft.onto base titles).graph.modifyBranch (base.branches.size + branch)
        fun held => held.addArm conditions none } =
      onto base titles { draft with
        graph := draft.graph.modifyBranch branch fun held => held.addArm conditions none } := by
    simp only [onto, ← added]
  unfold extendBranch
  simp only [extended]
  rw [onto_dedent]
  rfl

/-! ## Spoken lines -/

theorem onto_addLine (line : Line) :
    (draft.onto base titles).addLine (line.shift base) = (draft.addLine line).onto base titles := by
  simp only [addLine, onto, base.append_addLine draft.graph line]

theorem onto_attachSpeech (title : String) (id : LineIndex) (indent : Nat) :
    (draft.onto base titles).attachSpeech title (base.lines.size + id) indent =
      (draft.attachSpeech title id indent).map (onto base titles) := by
  unfold attachSpeech
  rcases latest : draft.latest
  case nothing => simp only [onto, latest, Except.map]
  case title =>
    simp only [onto, latest, Except.map, ← base.append_addEntry draft.graph title id]
  case line =>
    rcases stack : draft.lines with _ | ⟨earlier, waiting⟩
    · simp only [onto, latest, stack, List.map_nil]
      rfl
    · have linked := @onto_linkStrays base titles { draft with
        graph := draft.graph.setNext earlier.id id
        lines := waiting } (fun stray => indent ≤ stray.indent) (fun _ => rfl) id
      have follows := base.append_setNext draft.graph earlier.id id
      simp only [onto, latest, stack, List.map_cons, OpenNode.shift, follows, Except.map]
        at linked ⊢
      rw [linked]
  case choice =>
    rcases stack : draft.choices with _ | ⟨choice, outer⟩
    · simp only [onto, latest, stack, List.map_nil, Except.map]
    · have begun := base.append_modifyChoice draft.graph choice.id
        (fun held => { held with next := some id })
        (fun held => { held with next := some (base.lines.size + id) })
        (fun _ => rfl)
      simp only [onto, latest, stack, List.map_cons, OpenNode.shift, begun, Except.map]
  case branch =>
    rcases stack : draft.branches with _ | ⟨branch, outer⟩
    · simp only [onto, latest, stack, List.map_nil, Except.map]
    · have begun := base.append_modifyBranch draft.graph branch.id
        (fun held => held.setLastBody id) (fun held => held.setLastBody (base.lines.size + id))
        (fun held => held.setLastBody_shift base id)
      simp only [onto, latest, stack, List.map_cons, OpenNode.shift, begun, Except.map]

theorem onto_directSpeech (known : ∀ choice ∈ draft.choices, choice.id < draft.graph.choices.size)
    (id : LineIndex) (indent depth : Nat) :
    (draft.onto base titles).directSpeech (base.lines.size + id) indent depth =
      (draft.directSpeech id indent depth).map (onto base titles) := by
  unfold directSpeech
  split
  · rfl
  · rw [onto_markedRoot base titles draft known]
    rcases draft.markedRoot depth with fault | target
    · rfl
    · simp only [Except.map, onto, ← base.append_setNext draft.graph id target]

theorem onto_gatherStrays (id : LineIndex) (indent : Nat) :
    (draft.onto base titles).gatherStrays (base.lines.size + id) indent =
      (draft.gatherStrays id indent).onto base titles := by
  unfold gatherStrays
  have same : (draft.onto base titles).choices.isEmpty = draft.choices.isEmpty := by
    simp [onto]
  rw [same]
  split
  · exact onto_linkStrays base titles draft (fun _ => rfl) id
  · rfl

/-! ## Steps -/

variable (scope : Scope) (statement : Statement)

/-- A title that is not taken is declared twice exactly if it was before. -/
theorem onto_stepTitle (new : titleOf statement ∉ titles) :
    (draft.onto base titles).stepTitle statement =
      (draft.stepTitle statement).map (onto base titles) := by
  have same : titleOf statement ∈ (draft.closeDialogue.onto base titles).declared ↔
      titleOf statement ∈ draft.closeDialogue.declared := by
    show _ ∈ draft.closeDialogue.declared ++ titles ↔ _
    rw [List.mem_append]
    exact or_iff_left new
  simp only [stepTitle]
  by_cases nameless : trim (statement.content.drop 1) = []
  · rw [if_pos nameless, if_pos nameless]
    rfl
  · rw [if_neg nameless, if_neg nameless, onto_closeDialogue]
    by_cases taken : titleOf statement ∈ draft.closeDialogue.declared
    · rw [if_pos (show String.ofList _ ∈ _ from same.mpr taken),
        if_pos (show String.ofList _ ∈ _ from taken)]
      rfl
    · rw [if_neg (show ¬ String.ofList _ ∈ _ from fun held => taken (same.mp held)),
        if_neg (show ¬ String.ofList _ ∈ _ from taken)]
      rfl

theorem onto_stepOption :
    (draft.onto base titles).stepOption scope statement =
      (draft.stepOption scope statement).map (onto base titles) := by
  unfold stepOption
  rcases OptionLine.read statement.content with fault | option
  · rfl
  simp only [ok_bind]
  rcases readBlock scope option.block with fault | commands
  · rfl
  simp only [ok_bind]
  rcases readGuard scope option.condition with fault | conditions
  · rfl
  simp only [ok_bind, onto_abandonDeepLines, onto_optionRoot]
  rcases (draft.abandonDeepLines statement.indent).optionRoot statement.indent with fault | root
  · rfl
  have offered := onto_offer base titles (draft.abandonDeepLines statement.indent)
    (Choice.fresh option.text conditions commands root) option.terminal statement.indent
  unfold offer at offered
  simp only [ok_bind, Except.map]
  split
  · rename_i terminal
    simp only [terminal, if_true] at offered
    exact congrArg Except.ok offered
  · rename_i open'
    simp only [open'] at offered
    exact congrArg Except.ok offered

theorem onto_stepIfArm :
    (draft.onto base titles).stepIfArm scope statement =
      (draft.stepIfArm scope statement).map (onto base titles) := by
  unfold stepIfArm
  rw [onto_checkIfArm]
  show (draft.currentTitle >>= _) = _
  rcases draft.currentTitle with fault | title
  · rfl
  simp only [ok_bind]
  rcases draft.checkIfArm statement.indent with fault | _
  · rfl
  simp only [ok_bind]
  rcases ArmLine.read statement.content with fault | source
  · rfl
  simp only [ok_bind]
  rcases source with _ | source
  · rfl
  simp only
  rcases scope.readConditions source with fault | conditions
  · rfl
  exact congrArg Except.ok (onto_openBranch base titles draft title conditions statement.indent)

theorem onto_stepElseArm :
    (draft.onto base titles).stepElseArm scope statement =
      (draft.stepElseArm scope statement).map (onto base titles) := by
  unfold stepElseArm
  rw [onto_branchAt]
  rcases ArmLine.read statement.content with fault | source
  · rfl
  simp only [ok_bind]
  rcases draft.branchAt statement.indent with fault | branch
  · rfl
  simp only [Except.map, ok_bind, onto_checkElseArm]
  rcases draft.checkElseArm branch with fault | _
  · rfl
  simp only [ok_bind]
  rcases readGuard scope source with fault | conditions
  · rfl
  exact congrArg Except.ok (onto_extendBranch base titles draft branch conditions statement.indent)

theorem onto_stepSpeech
    (known : ∀ choice ∈ (draft.makeRoom statement.indent).choices,
      choice.id < (draft.makeRoom statement.indent).graph.choices.size) :
    (draft.onto base titles).stepSpeech scope statement =
      (draft.stepSpeech scope statement).map (onto base titles) := by
  let room := draft.makeRoom statement.indent
  simp only [stepSpeech, onto_settleChoice, onto_checkSpeech, onto_closeBranchAt]
  show (draft.currentTitle >>= _) = _
  rcases draft.currentTitle with fault | title
  · rfl
  simp only [ok_bind]
  rcases (draft.settleChoice statement.indent).checkSpeech statement.indent with fault | _
  · rfl
  simp only [ok_bind]
  rcases Speech.read statement.content with fault | speech
  · rfl
  simp only [ok_bind]
  rcases readBlock scope speech.block with fault | commands
  · rfl
  simp only [ok_bind]
  let line := Line.spoken speech.speaker speech.text speech.expression commands
  have size : (room.onto base titles).graph.lines.size = base.lines.size + room.graph.lines.size :=
    base.size_lines_append room.graph
  have attaches : ((room.onto base titles).addLine line).attachSpeech title
      (room.onto base titles).graph.lines.size statement.indent =
        ((room.addLine line).attachSpeech title room.graph.lines.size statement.indent).map
          (onto base titles) := by
    rw [size]
    show ((room.onto base titles).addLine (line.shift base)).attachSpeech _ _ _ = _
    rw [onto_addLine, onto_attachSpeech]
  show (((room.onto base titles).addLine line).attachSpeech title
    (room.onto base titles).graph.lines.size statement.indent >>= _) =
      Except.map _ ((room.addLine line).attachSpeech title room.graph.lines.size
        statement.indent >>= _)
  rw [attaches]
  rcases attach : (room.addLine line).attachSpeech title room.graph.lines.size
    statement.indent with fault | attached
  · rfl
  simp only [Except.map, ok_bind]
  have knownAdded : ∀ choice ∈ (room.addLine line).choices,
      choice.id < (room.addLine line).graph.choices.size := known
  have knownPlaced := known_choices_of_attachSpeech knownAdded attach
  show ((((attached.onto base titles).dedent statement.indent).directSpeech
    (room.onto base titles).graph.lines.size statement.indent speech.returnDepth) >>= _) =
      Except.map _ ((attached.dedent statement.indent).directSpeech room.graph.lines.size
        statement.indent speech.returnDepth >>= _)
  rw [size, onto_dedent, onto_directSpeech base titles _ knownPlaced]
  rcases (attached.dedent statement.indent).directSpeech room.graph.lines.size statement.indent
    speech.returnDepth with fault | directed
  · rfl
  have gathered := onto_gatherStrays base titles directed room.graph.lines.size statement.indent
  rw [← size] at gathered
  exact congrArg (fun placed : Draft => Except.ok { placed with latest := .line }) gathered

/-- What a statement does does not depend on the script before its dialogue. -/
theorem onto_step (nested : draft.Nested)
    (new : statement.construct = .dialogue → titleOf statement ∉ titles) :
    (draft.onto base titles).step scope statement =
      (draft.step scope statement).map (onto base titles) := by
  unfold step
  rw [onto_closeDeepBranches]
  rcases construct : statement.construct
  case dialogue => exact onto_stepTitle base titles _ statement (new construct)
  case option => exact onto_stepOption base titles _ scope statement
  case ifArm => exact onto_stepIfArm base titles _ scope statement
  case elseArm => exact onto_stepElseArm base titles _ scope statement
  case speech =>
    apply onto_stepSpeech
    intro choice member
    have closed := nested_closeDeepBranches nested statement.indent
    have suffix := (choices_suffix_of_closes (closes_closeBranchAt _ statement.indent)).mem member
    rw [choices_settleChoice] at suffix
    rw [size_choices_makeRoom]
    exact closed.knownChoices choice suffix

end Operations

/-! ## Runs -/

variable {scope : Scope} {draft after : Draft} {statement : Statement}

/-- A title forgets all that is open, so it is read as if nothing stood before it. -/
theorem step_dialogue (begins : statement.construct = .dialogue)
    (new : titleOf statement ∉ draft.declared) :
    draft.step scope statement = (Draft.empty.step scope statement).map
      (onto draft.closeDialogue.graph draft.declared) := by
  have declared : draft.closeDialogue.declared = draft.declared :=
    congrArg Prod.snd draft.titles_closeDialogue
  unfold step
  simp only [begins, stepTitle, closeDialogue_closeDeepBranches, declared]
  split
  · rfl
  · rw [if_neg (show ¬ String.ofList _ ∈ draft.declared from new),
      if_neg (show ¬ String.ofList _ ∈ Draft.empty.closeDialogue.declared from List.not_mem_nil)]
    have graph : draft.closeDialogue.graph.append Draft.empty.closeDialogue.graph =
        draft.closeDialogue.graph :=
      draft.closeDialogue.graph.append_empty
    simp only [Except.map, onto, graph]
    rfl

theorem onto_stepAll (base : Graph) {titles : List String} {statements : List Statement}
    (nested : draft.Nested) (new : ∀ title ∈ titlesOf statements, title ∉ titles) :
    (draft.onto base titles).stepAll scope statements =
      (draft.stepAll scope statements).map (onto base titles) := by
  induction statements generalizing draft with
  | nil => rfl
  | cons statement rest ih =>
      rw [titlesOf_cons] at new
      have newFirst : statement.construct = .dialogue → titleOf statement ∉ titles := by
        intro begins
        apply new
        rw [if_pos begins]
        exact List.mem_cons_self
      have newRest := fun title member => new title (List.mem_append_right _ member)
      simp only [stepAll, onto_step base titles draft scope statement nested newFirst]
      rcases read : draft.step scope statement with fault | next
      · rfl
      · exact ih (nested.step read) newRest

/-- From a title on, statements are read as if nothing stood before them. -/
theorem stepAll_dialogue {rest : List Statement} (begins : statement.construct = .dialogue)
    (new : ∀ title ∈ titlesOf (statement :: rest), title ∉ draft.declared) :
    draft.stepAll scope (statement :: rest) =
      (Draft.empty.stepAll scope (statement :: rest)).map
        (onto draft.closeDialogue.graph draft.declared) := by
  rw [titlesOf_cons, if_pos begins] at new
  have newRest := fun title member => new title (List.mem_append_right _ member)
  simp only [stepAll, step_dialogue begins (new _ List.mem_cons_self)]
  rcases read : Draft.empty.step scope statement with fault | next
  · rfl
  · exact onto_stepAll _ (Nested.empty.step read) newRest

end Draft

end Parley
