import Parley.Proofs.Draft.Stacks

/-!
# What becomes of a choice

As long as a choice is what was made last, the next statement decides how it goes on:
an option or a spoken line that is no deeper shows that the choice has no body, and a
deeper spoken line or branch begins its body.  The record of a choice changes in no
other way.
-/

namespace Parley

open Parley.Script

namespace Draft

variable {scope : Scope} {draft before after : Draft} {statement : Statement}

/-- The choice that was made last, if nothing has followed it. -/
def latestChoice? (draft : Draft) : Option OpenNode :=
  if draft.latest = .choice then draft.choices.head? else none

/-- The choice that a statement shows to have no body. -/
def endedBy (draft : Draft) (statement : Statement) : Option OpenNode :=
  let closed := draft.closeDeepBranches statement.indent
  match statement.construct with
  | .option => closed.latestChoice?
  | .speech => closed.latestChoice?.filter fun choice => statement.indent ≤ choice.indent
  | .dialogue | .ifArm | .elseArm => none

/-- The choice whose body a statement begins. -/
def enteredBy (draft : Draft) (statement : Statement) : Option OpenNode :=
  match statement.construct with
  | .ifArm => (draft.closeDeepBranches statement.indent).latestChoice?
  | .speech => (draft.roomFor statement).latestChoice?
  | .dialogue | .option | .elseArm => none

/-- The line that a statement makes the successor of a choice. -/
def nextGiven (draft : Draft) (statement : Statement) (id : ChoiceIndex) : Option LineIndex :=
  if (draft.endedBy statement).map OpenNode.id = some id then some draft.graph.lines.size
  else if statement.construct = .speech ∧ (draft.enteredBy statement).map OpenNode.id = some id then
    some (draft.roomFor statement).graph.lines.size
  else none

/-- The branch that a statement lets a choice lead to. -/
def branchGiven (draft : Draft) (statement : Statement) (id : ChoiceIndex) :
    Option BranchIndex :=
  if statement.construct = .ifArm ∧ (draft.enteredBy statement).map OpenNode.id = some id then
    some draft.graph.branches.size
  else none

/-! ## Closing and placing -/

/-- Choices are no matter of closing branches. -/
theorem choices_completeBranch (draft : Draft) (branch : OpenNode) (outer : List OpenNode) :
    ({ draft with branches := outer }.completeBranch branch).graph.choices =
      draft.graph.choices := by
  unfold completeBranch
  split <;> rfl

@[simp]
theorem graphChoices_closeDeepBranches (draft : Draft) (indent : Nat) :
    (draft.closeDeepBranches indent).graph.choices = draft.graph.choices :=
  closeDeepBranches_keeps (fun closed => closed.graph.choices) choices_completeBranch draft indent

@[simp]
theorem graphChoices_closeBranchAt (draft : Draft) (indent : Nat) :
    (draft.closeBranchAt indent).graph.choices = draft.graph.choices :=
  closeBranchAt_keeps (fun closed => closed.graph.choices) choices_completeBranch draft indent

@[simp]
theorem graphChoices_closeDialogue (draft : Draft) :
    draft.closeDialogue.graph.choices = draft.graph.choices :=
  closeDialogue_keeps (fun closed => closed.graph.choices) choices_completeBranch draft

theorem size_branches_completeBranch (draft : Draft) (branch : OpenNode)
    (outer : List OpenNode) :
    ({ draft with branches := outer }.completeBranch branch).graph.branches.size =
      draft.graph.branches.size := by
  unfold completeBranch
  split
  · rfl
  · exact size_branches_addDefaultArm _ branch

@[simp]
theorem size_branches_closeDeepBranches (draft : Draft) (indent : Nat) :
    (draft.closeDeepBranches indent).graph.branches.size = draft.graph.branches.size :=
  closeDeepBranches_keeps (fun closed => closed.graph.branches.size) size_branches_completeBranch
    draft indent

/-- While a choice is what was made last, no line has been added for a branch. -/
theorem closeDeepBranches_of_latestChoice? {indent : Nat} {choice : OpenNode}
    (last : (draft.closeDeepBranches indent).latestChoice? = some choice) :
    draft.latestChoice? = some choice ∧ draft.closeDeepBranches indent =
      { draft with branches := draft.branches.dropWhile fun branch => indent < branch.indent } := by
  unfold latestChoice? at last
  split at last
  · rename_i latest
    obtain ⟨latestBefore, complete⟩ := latest_closeDeepBranches_eq_choice_iff.mp latest
    have closed := closeDeepBranches_of_completeBelow complete
    rw [closed] at last
    exact ⟨by rw [latestChoice?, if_pos latestBefore]; exact last, closed⟩
  · cases last

theorem choice_endChoice (draft : Draft) (ended : OpenNode) (id : ChoiceIndex) :
    (draft.endChoice ended).graph.choice id =
      if ended.id = id ∧ id < draft.graph.choices.size then
        { draft.graph.choice id with next := some draft.graph.lines.size }
      else draft.graph.choice id :=
  (draft.graph.addLine Line.relay).choice_modifyChoice_eq ended.id id _

/-- An option ends the choice that was made last. -/
theorem choice_finishBodiless (draft : Draft) {id : ChoiceIndex}
    (known : id < draft.graph.choices.size) :
    draft.finishBodiless.graph.choice id =
      if draft.latestChoice?.map OpenNode.id = some id then
        { draft.graph.choice id with next := some draft.graph.lines.size }
      else draft.graph.choice id := by
  unfold finishBodiless latestChoice?
  split
  · rcases stack : draft.choices with _ | ⟨bodiless, outer⟩
    · rfl
    · have ended := choice_endChoice { draft with choices := outer } bodiless id
      simp only [known, and_true] at ended
      simpa using ended
  · rfl

/-- A spoken line ends the choice that was made last if it is no deeper. -/
theorem choice_settleChoice (draft : Draft) (indent : Nat) {id : ChoiceIndex}
    (known : id < draft.graph.choices.size) :
    (draft.settleChoice indent).graph.choice id =
      if (draft.latestChoice?.filter fun choice => indent ≤ choice.indent).map OpenNode.id =
          some id then
        { draft.graph.choice id with next := some draft.graph.lines.size }
      else draft.graph.choice id := by
  unfold settleChoice latestChoice?
  split
  · rcases stack : draft.choices with _ | ⟨choice, outer⟩
    · rfl
    · by_cases shallow : indent ≤ choice.indent
      · have ended := draft.choice_endChoice choice id
        simp only [known, and_true] at ended
        simpa [shallow, Option.filter] using ended
      · simp [shallow, Option.filter]
  · rfl

theorem size_choices_makeRoom (draft : Draft) (indent : Nat) :
    (draft.makeRoom indent).graph.choices.size = draft.graph.choices.size := by
  rw [makeRoom, graphChoices_closeBranchAt]
  unfold settleChoice
  split
  · split
    · split
      · exact Graph.size_choices_modifyChoice _ _ _
      · rfl
    · rfl
  · rfl

/-- A spoken line begins the body of the choice that was made last. -/
theorem choice_attachSpeech {title : String} {line : LineIndex} {indent : Nat}
    (attached : draft.attachSpeech title line indent = .ok after) {id : ChoiceIndex}
    (known : id < draft.graph.choices.size) :
    after.graph.choice id =
      if draft.latestChoice?.map OpenNode.id = some id then
        { draft.graph.choice id with next := some line }
      else draft.graph.choice id := by
  unfold attachSpeech at attached
  unfold latestChoice?
  split at attached
  · rename_i latest
    cases attached
    simp [latest]
  · rename_i latest
    cases attached
    simp [latest, Graph.addEntry, Graph.choice]
  · rename_i latest
    split at attached
    · cases attached
    · rename_i earlier waiting stack
      cases attached
      have same := (draft.graph.setNext earlier.id line).choices_foldl_setNext OpenNode.id
        (draft.strays.takeWhile fun stray => indent ≤ stray.indent) line
      rw [if_neg (by simp [latest])]
      exact Graph.choice_congr same id
  · rename_i latest
    split at attached
    · rename_i choice outer stack
      cases attached
      have modified := draft.graph.choice_modifyChoice_eq choice.id id
        fun held => { held with next := some line }
      simp only [known, and_true] at modified
      simpa [latest, stack] using modified
    · rename_i stack
      cases attached
      simp [stack]
  · rename_i latest
    split at attached <;> cases attached <;> simp [latest, Graph.modifyBranch, Graph.choice]

theorem choices_directSpeech {line : LineIndex} {indent depth : Nat}
    (directed : draft.directSpeech line indent depth = .ok after) :
    after.graph.choices = draft.graph.choices := by
  unfold directSpeech at directed
  split at directed
  · cases directed
    rfl
  · split at directed <;> cases directed
    rfl

theorem choices_gatherStrays (draft : Draft) (line : LineIndex) (indent : Nat) :
    (draft.gatherStrays line indent).graph.choices = draft.graph.choices := by
  unfold gatherStrays
  split
  · exact draft.graph.choices_foldl_setNext OpenNode.id _ line
  · rfl

/-- A branch begins the body of the choice that was made last. -/
theorem choice_attachBranch (draft : Draft) (title : String) (branch : BranchIndex)
    {id : ChoiceIndex} (known : id < draft.graph.choices.size) :
    (draft.attachBranch title branch).graph.choice id =
      if draft.latestChoice?.map OpenNode.id = some id then
        { draft.graph.choice id with branch := some branch }
      else draft.graph.choice id := by
  unfold attachBranch latestChoice?
  rcases latest : draft.latest
  case title => simp [Graph.addEntry, Graph.addLine, Graph.choice]
  case choice =>
    rcases stack : draft.choices with _ | ⟨choice, outer⟩
    · simp
    · have modified := draft.graph.choice_modifyChoice_eq choice.id id
        fun held => { held with branch := some branch }
      simp only [known, and_true] at modified
      simpa using modified
  all_goals
    simp only [reduceCtorEq, if_false, Option.map_none]
    split <;> rfl

/-! ## Steps -/

theorem graph_offer (draft : Draft) (choice : Choice) (terminal : Bool) (indent : Nat) :
    (draft.offer choice terminal indent).graph =
      (draft.addChoiceUnder choice).finishBodiless.graph := by
  unfold offer
  split <;> rfl

/-- Offering a choice ends the one that was made last. -/
theorem choice_offer (draft : Draft) (choice : Choice) (terminal : Bool) (indent : Nat)
    {id : ChoiceIndex} (known : id < draft.graph.choices.size) :
    (draft.offer choice terminal indent).graph.choice id =
      if draft.latestChoice?.map OpenNode.id = some id then
        { draft.graph.choice id with next := some draft.graph.lines.size }
      else draft.graph.choice id := by
  have knownAfter : id < (draft.addChoiceUnder choice).graph.choices.size := by
    show id < (draft.graph.addChoice choice).choices.size
    rw [Graph.size_choices_addChoice]
    exact Nat.lt_succ_of_lt known
  have older : (draft.addChoiceUnder choice).graph.choice id = draft.graph.choice id := by
    show (draft.graph.addChoice choice).choice id = _
    rw [Graph.choice_addChoice, if_neg (Nat.ne_of_lt known)]
  have size : (draft.addChoiceUnder choice).graph.lines.size = draft.graph.lines.size :=
    Graph.size_lines_modifyLine _ _ _
  rw [graph_offer, choice_finishBodiless _ knownAfter, older, size]
  rfl

/-- Opening a branch begins the body of the choice that was made last. -/
theorem choice_openBranch (draft : Draft) (title : String) (conditions : List Call)
    (indent : Nat) {id : ChoiceIndex} (known : id < draft.graph.choices.size) :
    (draft.openBranch title conditions indent).graph.choice id =
      if draft.latestChoice?.map OpenNode.id = some id then
        { draft.graph.choice id with branch := some draft.graph.branches.size }
      else draft.graph.choice id :=
  choice_attachBranch { draft with
    graph := draft.graph.addBranch ⟨[⟨conditions, none⟩]⟩
    branches := ⟨draft.graph.branches.size, indent⟩ :: draft.branches } title _ known

theorem latest_of_closes_of_line (line : draft.latest = .line) (closes : draft.Closes after) :
    after.latest = .line := by
  induction closes with
  | refl => exact line
  | @close closing branch outer _ _ ih =>
      have popped : { closing with branches := outer }.latest = .line := ih
      exact latest_completeBranch_of_line popped branch

theorem latest_closeBranchAt_of_line (line : draft.latest = .line) (indent : Nat) :
    (draft.closeBranchAt indent).latest = .line :=
  latest_of_closes_of_line line (draft.closes_closeBranchAt indent)

/-- Once a choice has been ended, it is not the last thing made any more. -/
theorem latestChoice?_makeRoom_of_ended {indent : Nat} {choice : OpenNode}
    (last : draft.latestChoice? = some choice) (shallow : indent ≤ choice.indent) :
    (draft.makeRoom indent).latestChoice? = none := by
  have settled : (draft.settleChoice indent).latest = .line := by
    unfold latestChoice? at last
    split at last
    · rename_i latest
      rcases stack : draft.choices with _ | ⟨top, outer⟩
      · rw [stack] at last
        cases last
      · rw [stack] at last
        cases last
        simp [settleChoice, latest, stack, shallow]
    · cases last
  have latest : (draft.makeRoom indent).latest = .line :=
    latest_closeBranchAt_of_line settled indent
  rw [latestChoice?, if_neg (by simp [latest])]

/-- Placing a spoken line ends the choice that was made last or begins its body. -/
theorem choice_of_stepSpeech (read : draft.stepSpeech scope statement = .ok after)
    {id : ChoiceIndex} (known : id < draft.graph.choices.size) :
    after.graph.choice id =
      if (draft.latestChoice?.filter fun choice => statement.indent ≤ choice.indent).map
          OpenNode.id = some id then
        { draft.graph.choice id with next := some draft.graph.lines.size }
      else if (draft.makeRoom statement.indent).latestChoice?.map OpenNode.id = some id then
        { draft.graph.choice id with
          next := some (draft.makeRoom statement.indent).graph.lines.size }
      else draft.graph.choice id := by
  obtain ⟨title, speech, commands, attached, directed, -, -, -, -, attach, direct, rfl⟩ :=
    stepSpeech_eq_ok_iff.mp read
  let room := draft.makeRoom statement.indent
  have settled : room.graph.choice id =
      (draft.settleChoice statement.indent).graph.choice id :=
    Graph.choice_congr (graphChoices_closeBranchAt _ statement.indent) id
  have knownInRoom : id < room.graph.choices.size := by
    rw [draft.size_choices_makeRoom statement.indent]
    exact known
  have attachedChoice := choice_attachSpeech attach knownInRoom
  have placed : (directed.gatherStrays room.graph.lines.size statement.indent).graph.choices =
      (attached.dedent statement.indent).graph.choices :=
    (directed.choices_gatherStrays _ _).trans (choices_directSpeech direct)
  refine (Graph.choice_congr placed id).trans (attachedChoice.trans ?_)
  show (if room.latestChoice?.map OpenNode.id = some id then
    { room.graph.choice id with next := some room.graph.lines.size }
    else room.graph.choice id) = _
  rw [settled, choice_settleChoice draft statement.indent known]
  by_cases ended : (draft.latestChoice?.filter fun choice => statement.indent ≤ choice.indent).map
      OpenNode.id = some id
  · obtain ⟨choice, found, -⟩ := Option.map_eq_some_iff.mp ended
    obtain ⟨last, shallow⟩ := Option.filter_eq_some_iff.mp found
    have gone := latestChoice?_makeRoom_of_ended last (by simpa using shallow)
    rw [if_pos ended, if_pos ended]
    exact if_neg (by simp [room, gone])
  · rw [if_neg ended, if_neg ended]

/-- A choice after a statement is the choice before it with the links that the statement
gives it. -/
theorem choice_of_step (read : before.step scope statement = .ok after) {id : ChoiceIndex}
    (known : id < before.graph.choices.size) :
    after.graph.choice id = { before.graph.choice id with
      next := (before.nextGiven statement id).or (before.graph.choice id).next
      branch := (before.branchGiven statement id).or (before.graph.choice id).branch } := by
  let closed := before.closeDeepBranches statement.indent
  have closedChoice : closed.graph.choice id = before.graph.choice id :=
    Graph.choice_congr (before.graphChoices_closeDeepBranches statement.indent) id
  have closedKnown : id < closed.graph.choices.size := by
    rw [before.graphChoices_closeDeepBranches statement.indent]
    exact known
  -- No line has been added where a choice is still the last thing made.
  have closedSize : closed.latestChoice?.map OpenNode.id = some id →
      closed.graph.lines.size = before.graph.lines.size := by
    intro last
    obtain ⟨choice, isLast, -⟩ := Option.map_eq_some_iff.mp last
    exact congrArg (fun same => same.graph.lines.size)
      (closeDeepBranches_of_latestChoice? isLast).2
  unfold step at read
  split at read
  · rename_i construct
    obtain ⟨title, -, -, -, rfl⟩ := stepTitle_eq_ok_iff.mp read
    have same : (closed.beginDialogue title).graph.choice id = before.graph.choice id :=
      (Graph.choice_congr closed.graphChoices_closeDialogue id).trans closedChoice
    simpa [nextGiven, branchGiven, endedBy, enteredBy, construct] using same
  · rename_i construct
    obtain ⟨option, commands, conditions, root, -, -, -, -, rfl⟩ := stepOption_eq_ok_iff.mp read
    have offered := choice_offer (closed.abandonDeepLines statement.indent)
      (Choice.fresh option.text conditions commands root) option.terminal statement.indent
      closedKnown
    refine offered.trans ?_
    show (if closed.latestChoice?.map OpenNode.id = some id then
      { closed.graph.choice id with next := some closed.graph.lines.size }
      else closed.graph.choice id) = _
    by_cases last : closed.latestChoice?.map OpenNode.id = some id
    · simp [nextGiven, branchGiven, endedBy, enteredBy, construct, closed, last, closedSize last,
        closedChoice]
    · simp [nextGiven, branchGiven, endedBy, enteredBy, construct, closed, last, closedChoice]
  · rename_i construct
    obtain ⟨title, source, conditions, -, -, -, -, rfl⟩ := stepIfArm_eq_ok_iff.mp read
    refine (closed.choice_openBranch title conditions statement.indent closedKnown).trans ?_
    have size := before.size_branches_closeDeepBranches statement.indent
    by_cases last : closed.latestChoice?.map OpenNode.id = some id
    · simp [nextGiven, branchGiven, endedBy, enteredBy, construct, closed, last, size,
        closedChoice]
    · simp [nextGiven, branchGiven, endedBy, enteredBy, construct, closed, last, closedChoice]
  · rename_i construct
    obtain ⟨source, branch, conditions, -, -, -, -, rfl⟩ := stepElseArm_eq_ok_iff.mp read
    have same : (closed.extendBranch branch conditions statement.indent).graph.choice id =
        before.graph.choice id := closedChoice
    simpa [nextGiven, branchGiven, endedBy, enteredBy, construct] using same
  · rename_i construct
    refine (choice_of_stepSpeech read closedKnown).trans ?_
    by_cases ended : (closed.latestChoice?.filter fun choice =>
        statement.indent ≤ choice.indent).map OpenNode.id = some id
    · obtain ⟨choice, found, same⟩ := Option.map_eq_some_iff.mp ended
      have last : closed.latestChoice?.map OpenNode.id = some id :=
        Option.map_eq_some_iff.mpr ⟨choice, (Option.filter_eq_some_iff.mp found).1, same⟩
      simp [nextGiven, branchGiven, endedBy, construct, closed, ended, closedSize last,
        closedChoice]
    · have roomEq : closed.makeRoom statement.indent = before.roomFor statement := rfl
      by_cases entered : (before.roomFor statement).latestChoice?.map OpenNode.id = some id
      · simp [nextGiven, branchGiven, endedBy, enteredBy, construct, closed, ended, entered,
          roomEq, closedChoice]
      · simp [nextGiven, branchGiven, endedBy, enteredBy, construct, closed, ended, entered,
          roomEq, closedChoice]

theorem nextGiven_eq_none_and_branchGiven_eq_none_iff {id : ChoiceIndex} :
    draft.nextGiven statement id = none ∧ draft.branchGiven statement id = none ↔
      (draft.endedBy statement).map OpenNode.id ≠ some id ∧
        (draft.enteredBy statement).map OpenNode.id ≠ some id := by
  unfold nextGiven branchGiven
  constructor
  · rintro ⟨noNext, noBranch⟩
    have notEnded : (draft.endedBy statement).map OpenNode.id ≠ some id := by
      intro ended
      rw [if_pos ended] at noNext
      cases noNext
    refine ⟨notEnded, fun entered => ?_⟩
    rw [if_neg notEnded] at noNext
    have construct : statement.construct = .speech ∨ statement.construct = .ifArm := by
      unfold enteredBy at entered
      split at entered <;> simp_all
    rcases construct with speaks | opens
    · rw [if_pos ⟨speaks, entered⟩] at noNext
      cases noNext
    · rw [if_pos ⟨opens, entered⟩] at noBranch
      cases noBranch
  · rintro ⟨notEnded, notEntered⟩
    rw [if_neg notEnded, if_neg (fun both => notEntered both.2),
      if_neg (fun both => notEntered both.2)]
    exact ⟨rfl, rfl⟩

/-- A line that is given to a choice is a new one. -/
theorem size_le_of_nextGiven {id : ChoiceIndex} {line : LineIndex}
    (given : draft.nextGiven statement id = some line) : draft.graph.lines.size ≤ line := by
  unfold nextGiven at given
  split at given
  · cases given
    exact Nat.le_refl _
  · split at given
    · cases given
      exact (draft.extends_roomFor statement).size
    · cases given

theorem eq_size_of_branchGiven {id : ChoiceIndex} {branch : BranchIndex}
    (given : draft.branchGiven statement id = some branch) :
    draft.graph.branches.size = branch := by
  unfold branchGiven at given
  split at given <;> cases given
  rfl

theorem size_choices_finishBodiless (draft : Draft) :
    draft.finishBodiless.graph.choices.size = draft.graph.choices.size := by
  unfold finishBodiless
  split
  · split
    · exact Graph.size_choices_modifyChoice _ _ _
    · rfl
  · rfl

theorem size_choices_attachBranch (draft : Draft) (title : String) (branch : BranchIndex) :
    (draft.attachBranch title branch).graph.choices.size = draft.graph.choices.size := by
  unfold attachBranch
  split
  · rfl
  · split
    · exact Graph.size_choices_modifyChoice _ _ _
    · rfl
  all_goals split <;> rfl

theorem size_choices_attachSpeech {title : String} {line : LineIndex} {indent : Nat}
    (attached : draft.attachSpeech title line indent = .ok after) :
    after.graph.choices.size = draft.graph.choices.size := by
  unfold attachSpeech at attached
  split at attached
  · cases attached
    rfl
  · cases attached
    rfl
  · split at attached
    · cases attached
    · cases attached
      exact congrArg Array.size (Graph.choices_foldl_setNext _ OpenNode.id _ line)
  · split at attached
    · cases attached
      exact Graph.size_choices_modifyChoice _ _ _
    · cases attached
      rfl
  · split at attached <;> cases attached <;> rfl

/-- The choices that are open around a spoken line are there when its markers are followed. -/
theorem known_choices_of_attachSpeech {title : String} {line : LineIndex} {indent : Nat}
    (known : ∀ choice ∈ draft.choices, choice.id < draft.graph.choices.size)
    (attached : draft.attachSpeech title line indent = .ok after) :
    ∀ choice ∈ (after.dedent indent).choices,
      choice.id < (after.dedent indent).graph.choices.size := by
  intro choice member
  have size := size_choices_attachSpeech attached
  have stack := (stacks_attachSpeech attached).2.1
  have isOpen : choice ∈ draft.choices := stack ▸ (List.dropWhile_sublist _).mem member
  exact Nat.lt_of_lt_of_eq (known choice isOpen) size.symm

/-- Each option makes one choice, and nothing else makes any. -/
theorem size_choices_of_step (read : before.step scope statement = .ok after) :
    after.graph.choices.size =
      before.graph.choices.size + if statement.construct = .option then 1 else 0 := by
  let closed := before.closeDeepBranches statement.indent
  have size : closed.graph.choices.size = before.graph.choices.size :=
    congrArg Array.size (before.graphChoices_closeDeepBranches statement.indent)
  unfold step at read
  split at read
  · rename_i construct
    obtain ⟨title, -, -, -, rfl⟩ := stepTitle_eq_ok_iff.mp read
    rw [if_neg (by simp [construct])]
    exact (congrArg Array.size closed.graphChoices_closeDialogue).trans size
  · rename_i construct
    obtain ⟨option, commands, conditions, root, -, -, -, -, rfl⟩ := stepOption_eq_ok_iff.mp read
    rw [if_pos construct, graph_offer, size_choices_finishBodiless]
    exact (Graph.size_choices_addChoice _ _).trans (congrArg (· + 1) size)
  · rename_i construct
    obtain ⟨title, source, conditions, -, -, -, -, rfl⟩ := stepIfArm_eq_ok_iff.mp read
    rw [if_neg (by simp [construct])]
    exact (size_choices_attachBranch { closed with
      graph := closed.graph.addBranch ⟨[⟨conditions, none⟩]⟩
      branches := ⟨closed.graph.branches.size, statement.indent⟩ :: closed.branches }
        title closed.graph.branches.size).trans size
  · rename_i construct
    obtain ⟨source, branch, conditions, -, -, -, -, rfl⟩ := stepElseArm_eq_ok_iff.mp read
    rw [if_neg (by simp [construct])]
    exact size
  · rename_i construct
    obtain ⟨title, speech, commands, attached, directed, -, -, -, -, attach, direct, rfl⟩ :=
      stepSpeech_eq_ok_iff.mp read
    rw [if_neg (by simp [construct])]
    have attachedSize := size_choices_attachSpeech attach
    have directedChoices := choices_directSpeech direct
    calc
      (directed.gatherStrays _ statement.indent).graph.choices.size
          = directed.graph.choices.size := congrArg Array.size (directed.choices_gatherStrays _ _)
      _ = attached.graph.choices.size := congrArg Array.size directedChoices
      _ = (closed.makeRoom statement.indent).graph.choices.size := attachedSize
      _ = closed.graph.choices.size := closed.size_choices_makeRoom statement.indent
      _ = before.graph.choices.size + 0 := size

end Draft

end Parley
