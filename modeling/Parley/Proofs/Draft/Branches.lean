import Parley.Proofs.Draft.Bodies
import Parley.Proofs.Graph.Sound
import Parley.Proofs.Script.Accepted

/-!
# What becomes of a branch

A branch gets arms while it is open.  Statements that are deeper than the branch leave
its conditions alone: at most they give its last arm a body.  Once the branch is closed,
nothing about it changes any more.
-/

namespace Parley

open Parley.Script

namespace Draft

variable {scope : Scope} {draft before after : Draft} {statement : Statement} {id : BranchIndex}

/-! ## Closing other branches -/

theorem branch_completeBranch_of_ne {node : OpenNode} (other : node.id ≠ id) :
    (draft.completeBranch node).graph.branch id = draft.graph.branch id := by
  unfold completeBranch
  split
  · rfl
  · rw [branch_addDefaultArm, if_neg fun both => other both.1]

/-- Closing branches changes no other branch. -/
theorem branch_foldl_completeBranch {closed : List OpenNode}
    (others : ∀ node ∈ closed, node.id ≠ id) :
    (closed.foldl completeBranch draft).graph.branch id = draft.graph.branch id := by
  induction closed generalizing draft with
  | nil => rfl
  | cons node rest ih =>
      have first := others node List.mem_cons_self
      exact (ih fun other member => others other (List.mem_cons_of_mem node member)).trans
        (branch_completeBranch_of_ne first)

theorem branch_closeDeepBranches {indent : Nat}
    (shallow : ∀ node ∈ draft.branches, node.id = id → node.indent ≤ indent) :
    (draft.closeDeepBranches indent).graph.branch id = draft.graph.branch id := by
  apply branch_foldl_completeBranch
  intro node member same
  have inside := (List.takeWhile_sublist _).mem member
  have deeper := List.all_eq_true.mp List.all_takeWhile node member
  simp only [decide_eq_true_eq] at deeper
  exact Nat.not_le_of_lt deeper (shallow node inside same)

theorem branch_closeBranchAt {indent : Nat}
    (apart : ∀ node ∈ draft.branches, node.id = id → node.indent ≠ indent) :
    (draft.closeBranchAt indent).graph.branch id = draft.graph.branch id := by
  unfold closeBranchAt
  split
  · rename_i node outer stack
    split
    · rename_i level
      apply branch_completeBranch_of_ne
      exact fun same => apart node (stack ▸ List.mem_cons_self) same level
    · rfl
  · rfl

theorem branch_closeDialogue (closed : ∀ node ∈ draft.branches, node.id ≠ id) :
    draft.closeDialogue.graph.branch id = draft.graph.branch id :=
  branch_foldl_completeBranch closed

/-! ## Steps -/

theorem branches_offer (draft : Draft) (offered : Choice) (terminal : Bool) (indent : Nat) :
    (draft.offer offered terminal indent).graph.branches = draft.graph.branches := by
  rw [graph_offer, graphBranches_finishBodiless]
  rfl

/-- A branch that is opened is a new one. -/
theorem branch_openBranch (draft : Draft) (title : String) (conditions : List Call) (indent : Nat)
    (id : BranchIndex) : (draft.openBranch title conditions indent).graph.branch id =
      if id = draft.graph.branches.size then ⟨[⟨conditions, none⟩]⟩ else draft.graph.branch id := by
  have attached : ∀ (added : Draft) (branch : BranchIndex),
      (added.attachBranch title branch).graph.branches = added.graph.branches := by
    intro added branch
    unfold attachBranch
    split
    · rfl
    all_goals split <;> rfl
  rw [← Graph.branch_addBranch]
  exact Graph.branch_congr (attached { draft with
    graph := draft.graph.addBranch ⟨[⟨conditions, none⟩]⟩
    branches := ⟨draft.graph.branches.size, indent⟩ :: draft.branches }
    draft.graph.branches.size) id

/-- Attaching a spoken line gives the innermost branch a body at most. -/
theorem branch_attachSpeech {title : String} {line : LineIndex} {indent : Nat}
    (attached : draft.attachSpeech title line indent = .ok after) (id : BranchIndex) :
    after.graph.branch id = draft.graph.branch id ∨
      after.graph.branch id = (draft.graph.branch id).setLastBody line ∧
        draft.latest = .branch ∧ ∃ node ∈ draft.branches, node.id = id := by
  unfold attachSpeech at attached
  split at attached
  · cases attached
    exact Or.inl rfl
  · cases attached
    exact Or.inl rfl
  · split at attached
    · cases attached
    · cases attached
      exact Or.inl (Graph.branch_congr (Graph.branches_foldl_setNext _ OpenNode.id _ line) id)
  · split at attached <;> cases attached <;> exact Or.inl rfl
  · rename_i latest
    split at attached
    · rename_i node outer stack
      cases attached
      dsimp only
      rw [Graph.branch_modifyBranch_eq]
      split
      · rename_i both
        exact Or.inr ⟨rfl, latest, node, stack ▸ List.mem_cons_self, both.1⟩
      · exact Or.inl rfl
    · cases attached
      exact Or.inl rfl

/-- A statement that is deeper than a branch, if the branch is open at all, changes it no more
than by giving its last arm a body. -/
theorem branch_of_step (read : before.step scope statement = .ok after)
    (known : id < before.graph.branches.size)
    (shallower : ∀ node ∈ before.branches, node.id = id →
      node.indent < statement.indent ∧ statement.construct ≠ .dialogue) :
    after.graph.branch id = before.graph.branch id ∨
      (∃ line, after.graph.branch id = (before.graph.branch id).setLastBody line) ∧
        ∃ node ∈ before.branches, node.id = id := by
  let closed := before.closeDeepBranches statement.indent
  have kept : ∀ node ∈ closed.branches, node ∈ before.branches := by
    intro node member
    rw [branches_closeDeepBranches] at member
    exact (List.dropWhile_sublist _).mem member
  have same : closed.graph.branch id = before.graph.branch id :=
    branch_closeDeepBranches fun node member isIt => Nat.le_of_lt (shallower node member isIt).1
  unfold step at read
  split at read
  · rename_i construct
    obtain ⟨title, -, -, -, rfl⟩ := stepTitle_eq_ok_iff.mp read
    have ended : closed.closeDialogue.graph.branch id = closed.graph.branch id :=
      branch_closeDialogue fun node member isIt =>
        (shallower node (kept node member) isIt).2 construct
    exact Or.inl (ended.trans same)
  · obtain ⟨option, commands, conditions, root, -, -, -, -, rfl⟩ := stepOption_eq_ok_iff.mp read
    left
    rw [← same]
    exact Graph.branch_congr (branches_offer (closed.abandonDeepLines statement.indent) _ _ _) id
  · obtain ⟨title, source, conditions, -, -, -, -, rfl⟩ := stepIfArm_eq_ok_iff.mp read
    left
    rw [branch_openBranch, if_neg]
    · exact same
    · rw [before.size_branches_closeDeepBranches]
      exact Nat.ne_of_lt known
  · obtain ⟨source, branch, conditions, -, found, -, -, rfl⟩ := stepElseArm_eq_ok_iff.mp read
    left
    rw [← same]
    show (closed.graph.modifyBranch branch _).branch id = closed.graph.branch id
    rw [Graph.branch_modifyBranch_eq, if_neg]
    rintro ⟨rfl, -⟩
    obtain ⟨outer, stack⟩ := branchAt_eq_ok_iff.mp found
    have member : ⟨branch, statement.indent⟩ ∈ closed.branches := stack ▸ List.mem_cons_self
    exact Nat.lt_irrefl _ (shallower _ (kept _ member) rfl).1
  · obtain ⟨title, speech, commands, attached, directed, -, -, -, -, attach, direct, rfl⟩ :=
      stepSpeech_eq_ok_iff.mp read
    let room := closed.makeRoom statement.indent
    have settled := branches_settleChoice closed statement.indent
    have roomSame : room.graph.branch id = before.graph.branch id := by
      refine Eq.trans ?_ same
      refine Eq.trans ?_
        (Graph.branch_congr (graphBranches_settleChoice closed statement.indent) id)
      apply branch_closeBranchAt
      intro node member isIt level
      rw [settled] at member
      exact Nat.ne_of_lt (shallower node (kept node member) isIt).1 level
    have placed : (directed.gatherStrays room.graph.lines.size statement.indent).graph.branch id =
        attached.graph.branch id :=
      (Graph.branch_congr (directed.branches_gatherStrays _ _) id).trans
        (Graph.branch_congr (branches_directSpeech direct) id)
    rcases branch_attachSpeech attach id with unchanged | ⟨bodied, -, node, member, isIt⟩
    · left
      exact placed.trans (unchanged.trans roomSame)
    · right
      refine ⟨⟨room.graph.lines.size, ?_⟩, node, ?_, isIt⟩
      · rw [← roomSame]
        exact placed.trans bodied
      · apply kept
        rw [← settled]
        exact (branches_closeBranchAt_suffix _ statement.indent).mem member

/-- A statement closes no branch that is shallower than itself. -/
theorem dropWhile_branches_of_step (read : before.step scope statement = .ok after)
    (stays : statement.construct ≠ .dialogue) {level : Nat} (deeper : level < statement.indent) :
    (after.branches.dropWhile fun branch => level < branch.indent) =
      before.branches.dropWhile fun branch => level < branch.indent := by
  let closed := before.closeDeepBranches statement.indent
  have same : (closed.branches.dropWhile fun branch => level < branch.indent) =
      before.branches.dropWhile fun branch => level < branch.indent := by
    rw [branches_closeDeepBranches]
    apply dropWhile_dropWhile_of_imp
    intro branch dropped
    simp only [decide_eq_true_eq] at dropped ⊢
    exact Nat.lt_trans deeper dropped
  rw [← same]
  unfold step at read
  split at read
  · rename_i construct
    exact absurd construct stays
  · obtain ⟨-, -, branches, -, -⟩ := stacks_of_stepOption read
    rw [branches]
  · obtain ⟨branches, -, -⟩ := stacks_of_stepIfArm read
    rw [branches, List.dropWhile_cons_of_pos (by simpa using deeper)]
  · obtain ⟨branches, -, -⟩ := stacks_of_stepElseArm read
    rw [branches]
  · obtain ⟨branches, -, -⟩ := stacks_of_stepSpeech read
    rw [branches, branches_closeBranchAt]
    rcases stack : closed.branches with _ | ⟨branch, outer⟩
    · rfl
    · dsimp only
      split
      · rename_i exact'
        rw [List.dropWhile_cons_of_pos (by simpa [exact'] using deeper)]
      · rfl

/-! ## Branches that lack an arm without conditions -/

/-- Nodes that get ever older are told apart by their ids. -/
theorem eq_of_older {stack : List OpenNode}
    (older : stack.Pairwise fun inner outer => outer.id < inner.id) {first second : OpenNode}
    (inFirst : first ∈ stack) (inSecond : second ∈ stack) (same : first.id = second.id) :
    first = second := by
  induction older with
  | nil => cases inFirst
  | @cons top rest below _ ih =>
      rcases List.mem_cons.mp inFirst with isTop | inRest
      · rcases List.mem_cons.mp inSecond with isTopToo | inRestToo
        · exact isTop.trans isTopToo.symm
        · exact absurd same.symm (Nat.ne_of_lt (isTop ▸ below second inRestToo))
      · rcases List.mem_cons.mp inSecond with isTopToo | inRestToo
        · exact absurd same (Nat.ne_of_lt (isTopToo ▸ below first inRest))
        · exact ih inRest inRestToo

/-- The innermost branch that is no deeper than an indentation stands at it and still lacks an
arm without conditions. -/
structure Lacks (draft : Draft) (id : BranchIndex) (indent : Nat) : Prop where
  innermost : ∃ outer, (draft.branches.dropWhile fun branch => indent < branch.indent) =
    ⟨id, indent⟩ :: outer
  incomplete : (draft.graph.branch id).isExhaustive = false

variable {indent : Nat}

theorem Lacks.mem (lacks : draft.Lacks id indent) : ⟨id, indent⟩ ∈ draft.branches := by
  obtain ⟨outer, innermost⟩ := lacks.innermost
  apply (List.dropWhile_sublist fun branch : OpenNode => indent < branch.indent).mem
  rw [innermost]
  exact List.mem_cons_self

theorem Lacks.eq_of_mem (lacks : draft.Lacks id indent) (nested : draft.Nested) {node : OpenNode}
    (member : node ∈ draft.branches) (same : node.id = id) : node = ⟨id, indent⟩ :=
  eq_of_older (nested.branches.imp fun both => both.1) member lacks.mem same

/-- A branch still lacks an arm without conditions after its first arm. -/
theorem lacks_of_stepIfArm (read : draft.stepIfArm scope statement = .ok after) :
    after.Lacks draft.graph.branches.size statement.indent := by
  obtain ⟨branches, -, -⟩ := stacks_of_stepIfArm read
  obtain ⟨title, source, conditions, -, -, -, readConditions, rfl⟩ :=
    stepIfArm_eq_ok_iff.mp read
  constructor
  · exact ⟨draft.branches, by rw [branches, List.dropWhile_cons_of_neg (by simp)]⟩
  · rw [branch_openBranch, if_pos rfl]
    simpa [Branch.isExhaustive, Arm.isUnconditional] using
      Scope.ne_nil_of_readConditions readConditions

/-- A guard has conditions exactly if it is there. -/
theorem isEmpty_of_readGuard {source : Option Text.Chars} {conditions : List Call}
    (read : readGuard scope source = .ok conditions) : conditions.isEmpty = !source.isSome := by
  cases source with
  | none =>
      cases read
      rfl
  | some source =>
      have some := Scope.ne_nil_of_readConditions read
      simpa using some

/-- After a further arm a branch has an arm without conditions exactly if that is the one. -/
theorem isExhaustive_of_stepElseArm (read : draft.stepElseArm scope statement = .ok after)
    {source : Option Text.Chars} (readSource : ArmLine.read statement.content = .ok source)
    (found : draft.branchAt statement.indent = .ok id) (known : id < draft.graph.branches.size) :
    (after.graph.branch id).isExhaustive = !source.isSome := by
  obtain ⟨other, branch, conditions, readOther, foundBranch, fits, readConditions, rfl⟩ :=
    stepElseArm_eq_ok_iff.mp read
  rw [readSource] at readOther
  cases readOther
  rw [found] at foundBranch
  cases foundBranch
  show ((draft.graph.modifyBranch id _).branch id).isExhaustive = _
  rw [Graph.branch_modifyBranch_eq, if_pos ⟨rfl, known⟩, Branch.isExhaustive, Branch.arms_addArm,
    List.any_append, ← Branch.isExhaustive, incomplete_of_checkElseArm fits, Bool.false_or]
  simp only [List.any_cons, List.any_nil, Bool.or_false, Arm.isUnconditional]
  exact isEmpty_of_readGuard readConditions

/-- A branch still lacks an arm without conditions after a further arm with conditions. -/
theorem lacks_of_stepElseArm (read : draft.stepElseArm scope statement = .ok after)
    {source : Text.Chars} (guarded : ArmLine.read statement.content = .ok (some source))
    (found : draft.branchAt statement.indent = .ok id) (nested : draft.Nested) :
    after.Lacks id statement.indent := by
  obtain ⟨branches, -, -⟩ := stacks_of_stepElseArm read
  obtain ⟨outer, stack⟩ := branchAt_eq_ok_iff.mp found
  have known : id < draft.graph.branches.size :=
    nested.knownBranches ⟨id, statement.indent⟩ (stack ▸ List.mem_cons_self)
  constructor
  · exact ⟨outer, by rw [branches, stack, List.dropWhile_cons_of_neg (by simp)]⟩
  · exact isExhaustive_of_stepElseArm read guarded found known

/-- Deeper statements do not complete a branch. -/
theorem Lacks.step (lacks : before.Lacks id indent) (nested : before.Nested)
    (read : before.step scope statement = .ok after) (deeper : indent < statement.indent)
    (stays : statement.construct ≠ .dialogue) : after.Lacks id indent where
  innermost := by
    rw [dropWhile_branches_of_step read stays deeper]
    exact lacks.innermost
  incomplete := by
    have known := nested.knownBranches ⟨id, indent⟩ lacks.mem
    have shallower : ∀ node ∈ before.branches, node.id = id →
        node.indent < statement.indent ∧ statement.construct ≠ .dialogue := by
      intro node member same
      rw [lacks.eq_of_mem nested member same]
      exact ⟨deeper, stays⟩
    rcases branch_of_step read known shallower with same | ⟨⟨line, bodied⟩, -⟩
    · rw [same]
      exact lacks.incomplete
    · rw [bodied, Branch.isExhaustive_eq_of_conditions_eq (Branch.conditions_setLastBody _ line)]
      exact lacks.incomplete

/-- A spoken line at the level of a branch that lacks an arm without conditions gives it one.  Its
relay is then the innermost open line. -/
theorem makeRoom_of_lacks (lacks : before.Lacks id indent) (nested : before.Nested) :
    let settled := (before.closeDeepBranches indent).settleChoice indent
    let room := (before.closeDeepBranches indent).makeRoom indent
    room.latest = .line ∧ room.lines = ⟨settled.graph.lines.size, indent + 1⟩ :: settled.lines ∧
      room.graph.line settled.graph.lines.size = Line.relay ∧
      room.graph.branch id =
        (before.graph.branch id).addArm [] (some settled.graph.lines.size) ∧
      (∀ node ∈ room.branches, node.id ≠ id) ∧ id < room.graph.branches.size := by
  intro settled room
  obtain ⟨outer, innermost⟩ := lacks.innermost
  have stack : settled.branches = ⟨id, indent⟩ :: outer := by
    rw [branches_settleChoice, branches_closeDeepBranches, innermost]
  have same : settled.graph.branch id = before.graph.branch id := by
    refine (Graph.branch_congr (graphBranches_settleChoice _ indent) id).trans ?_
    apply branch_closeDeepBranches
    intro node member isIt
    exact Nat.le_of_eq (congrArg OpenNode.indent (lacks.eq_of_mem nested member isIt))
  have size : settled.graph.branches.size = before.graph.branches.size :=
    (congrArg Array.size (graphBranches_settleChoice _ indent)).trans
      (before.size_branches_closeDeepBranches indent)
  have known : id < settled.graph.branches.size := by
    rw [size]
    exact nested.knownBranches ⟨id, indent⟩ lacks.mem
  have roomEq : room = { settled with branches := outer }.addDefaultArm ⟨id, indent⟩ := by
    have incomplete : (settled.graph.branch id).isExhaustive = false := by
      rw [same]
      exact lacks.incomplete
    show settled.closeBranchAt indent = _
    rw [closeBranchAt, stack]
    simp [completeBranch, incomplete]
  have record := branch_addDefaultArm { settled with branches := outer } ⟨id, indent⟩ id
  rw [if_pos ⟨rfl, known⟩] at record
  rw [roomEq]
  refine ⟨rfl, rfl, settled.graph.line_addLine_size Line.relay, ?_, ?_, ?_⟩
  · rw [← same]
    exact record
  · -- The branch was the innermost one, and all others are older.
    intro node member
    have inside := nested.branches.sublist
      (List.dropWhile_sublist fun branch : OpenNode => indent < branch.indent)
    rw [innermost] at inside
    exact Nat.ne_of_lt (List.rel_of_pairwise_cons inside member).1
  · rw [size_branches_addDefaultArm]
    exact known

theorem lines_settleChoice (draft : Draft) (indent : Nat) :
    (draft.settleChoice indent).lines = draft.lines := by
  unfold settleChoice
  split
  · split
    · split <;> rfl
    · rfl
  · rfl

/-- The innermost line below the relay of a branch is left behind with the deep lines, and the
spoken line that completes the branch follows it unless a choice is open around the branch. -/
theorem mem_predecessors_iff_of_lacks (lacks : before.Lacks id indent) (nested : before.Nested)
    (orderly : before.Orderly) {line : OpenNode} {outer : List OpenNode}
    (innermost : before.lines = line :: outer) (deeper : indent < line.indent) :
    let room := (before.closeDeepBranches indent).makeRoom indent
    line.id ∈ room.predecessors indent ↔
      ((before.closeDeepBranches indent).choices.dropWhile fun choice =>
        indent ≤ choice.indent) = [] := by
  intro room
  obtain ⟨latest, lines, -, -, -, -⟩ := makeRoom_of_lacks lacks nested
  obtain ⟨relays, closedLines, deepRelays⟩ := before.exists_lines_closeDeepBranches indent
  have released : (room.release indent).lines = relays ++ line :: outer := by
    rw [release, if_pos latest]
    show room.lines.drop 1 = _
    rw [lines, List.drop_one, List.tail_cons, lines_settleChoice, closedLines, innermost]
  -- The lines that are left behind come first among the strays that may be gathered.
  have left : ∃ deep, line ∈ deep ∧ (∀ node ∈ deep, indent < node.indent) ∧
      ((room.release indent).dedent indent).strays = deep ++ (room.release indent).strays := by
    refine ⟨((relays ++ line :: outer).takeWhile fun node => indent < node.indent).reverse,
      ?_, ?_, ?_⟩
    · rw [List.mem_reverse, List.takeWhile_append_of_pos, List.takeWhile_cons_of_pos]
      · simp
      · simpa using deeper
      · intro relay member
        simpa using Nat.lt_of_succ_lt (deepRelays relay member).1
    · intro node member
      have deep := List.all_eq_true.mp List.all_takeWhile node (List.mem_reverse.mp member)
      simpa using deep
    · rw [← released]
      rfl
  obtain ⟨deep, inside, deepNodes, strays⟩ := left
  have notFollowed : line.id ∉ (room.followed indent).map OpenNode.id := by
    intro followed
    have roomOrderly := (Extends.closeDeepBranches before indent).trans
      (Extends.makeRoom _ indent) |>.orderly orderly
    have parts := (room.waitingNodes_perm_followed indent).map OpenNode.id
    have nodup := parts.nodup_iff.mp roomOrderly.nodup
    rw [List.map_append] at nodup
    obtain ⟨_, _, apart⟩ := List.nodup_append.mp nodup
    have waits : line.id ∈ (room.release indent).waitingNodes.map OpenNode.id := by
      apply List.mem_map_of_mem
      rw [waitingNodes, released]
      simp
    exact apart line.id followed line.id waits rfl
  have choices : ((room.release indent).dedent indent).choices =
      (before.closeDeepBranches indent).choices.dropWhile fun choice =>
        indent ≤ choice.indent := by
    show room.choices.dropWhile _ = _
    rw [show room.choices = (((before.closeDeepBranches indent).settleChoice indent).closeBranchAt
      indent).choices from rfl, dropWhile_choices_closeBranchAt, choices_settleChoice]
  rw [predecessors, List.mem_append, gathered]
  simp only [choices, List.isEmpty_iff, notFollowed, false_or]
  constructor
  · intro gathered
    split at gathered
    · assumption
    · cases gathered
  · intro none
    rw [if_pos none]
    apply List.mem_map_of_mem
    rw [strays, List.takeWhile_append_of_pos (by simpa using deepNodes)]
    exact List.mem_append_left _ inside

end Draft

section Reading

variable (scope : Scope) (statements : List Statement)

/-- The statement at a place adds an arm with conditions to a branch: it opens the branch, or the
branch is the open one at its indentation. -/
def AddsArm (place : Nat) (id : BranchIndex) : Prop :=
  ∃ statement source, statements[place]? = some statement ∧
    ArmLine.read statement.content = .ok (some source) ∧
    (statement.construct = .ifArm ∧ id = branchOpenedAt scope statements place ∨
      statement.construct = .elseArm ∧ ((draftAfter scope statements place).closeDeepBranches
        statement.indent).branchAt statement.indent = .ok id)

/-- The spoken statement at a later place ends the arm that begins at an earlier one: everything
in between is deeper, and it stands where the arm does. -/
structure EndsArm (earlier later : Nat) : Prop where
  spoken : constructAt statements later = some .speech
  after : earlier < later
  dialogue : SameDialogue statements earlier later
  level : indentAt statements later = indentAt statements earlier
  deeper : ∀ between, earlier < between → between < later →
    indentAt statements earlier < indentAt statements between

variable {scope statements} {final : Draft} {header place later : Nat} {id : BranchIndex}
  {statement : Statement}

theorem nested_closeDeepBranches {draft : Draft} (nested : draft.Nested) (indent : Nat) :
    (draft.closeDeepBranches indent).Nested where
  branches := by
    rw [Draft.branches_closeDeepBranches]
    exact nested.branches.sublist (List.dropWhile_sublist _)
  choices :=
    nested.choices.sublist (draft.choices_closeDeepBranches_suffix indent).sublist
  knownBranches branch member := by
    rw [Draft.branches_closeDeepBranches] at member
    rw [draft.size_branches_closeDeepBranches]
    exact nested.knownBranches branch ((List.dropWhile_sublist _).mem member)
  knownChoices choice member := by
    rw [draft.graphChoices_closeDeepBranches]
    exact nested.knownChoices choice ((draft.choices_closeDeepBranches_suffix indent).mem member)

/-- After an arm with conditions its branch lacks one without. -/
theorem AddsArm.lacks (read : Draft.empty.stepAll scope statements = .ok final)
    (adds : AddsArm scope statements header id) :
    (draftAfter scope statements (header + 1)).Lacks id (indentAt statements header) := by
  obtain ⟨statement, source, found, guarded, adds⟩ := adds
  have stepped := step_draftAfter read found
  have nestedBefore : (draftAfter scope statements header).Nested := nested_draftAfter header
  have nested := nested_closeDeepBranches nestedBefore statement.indent
  rw [indentAt_eq found]
  unfold Draft.step at stepped
  rcases adds with ⟨opens, rfl⟩ | ⟨extends', open'⟩
  · simp only [opens] at stepped
    have lacks := Draft.lacks_of_stepIfArm stepped
    rwa [Draft.size_branches_closeDeepBranches] at lacks
  · simp only [extends'] at stepped
    exact Draft.lacks_of_stepElseArm stepped guarded open' nested

/-- The branch still does where the arm ends. -/
theorem AddsArm.lacks_until (read : Draft.empty.stepAll scope statements = .ok final)
    (adds : AddsArm scope statements header id) (ends : EndsArm statements header later) :
    (draftAfter scope statements later).Lacks id (indentAt statements header) := by
  obtain ⟨statement, found, -⟩ := Option.map_eq_some_iff.mp ends.spoken
  have within : later ≤ statements.length := Nat.le_of_lt (List.getElem?_eq_some_iff.mp found).1
  refine draftAfter_induction (motive := fun count =>
    (draftAfter scope statements count).Lacks id (indentAt statements header)) read ends.after
    within (adds.lacks read) ?_
  intro between inner after before foundInner stepped lacks
  apply lacks.step (nested_draftAfter between) stepped
  · have deeper := ends.deeper between after before
    rwa [indentAt_eq foundInner] at deeper
  · have stays := ends.dialogue between after before
    rw [constructAt_of_found foundInner] at stays
    exact fun title => stays (congrArg some title)

/-- Nothing changes a branch that has been closed. -/
theorem branch_of_closed (read : Draft.empty.stepAll scope statements = .ok final) {start : Nat}
    (within : start ≤ statements.length)
    (known : id < (draftAfter scope statements start).graph.branches.size)
    (closed : ∀ node ∈ (draftAfter scope statements start).branches, node.id ≠ id) :
    final.closeDialogue.graph.branch id = (draftAfter scope statements start).graph.branch id := by
  have stays : (∀ node ∈ (draftAfter scope statements statements.length).branches, node.id ≠ id) ∧
      (draftAfter scope statements statements.length).graph.branch id =
        (draftAfter scope statements start).graph.branch id := by
    refine draftAfter_induction (motive := fun count =>
      (∀ node ∈ (draftAfter scope statements count).branches, node.id ≠ id) ∧
        (draftAfter scope statements count).graph.branch id =
          (draftAfter scope statements start).graph.branch id) read within (Nat.le_refl _)
      ⟨closed, rfl⟩ ?_
    rintro between inner after before found stepped ⟨stillClosed, same⟩
    have mono := size_branches_mono read after (Nat.le_of_lt before)
    have knownThen := Nat.lt_of_lt_of_le known mono
    constructor
    · obtain ⟨kept, branches, suffix, -⟩ :=
        Draft.exists_branches_of_step (nested_draftAfter between) stepped
      intro node member
      rw [branches] at member
      rcases List.mem_append.mp member with new | old
      · split at new
        · rw [List.mem_singleton.mp new]
          exact Nat.ne_of_gt knownThen
        · cases new
      · exact stillClosed node (suffix.mem old)
    · have unchanged := Draft.branch_of_step stepped knownThen fun node member isIt =>
        absurd isIt (stillClosed node member)
      rcases unchanged with unchanged | ⟨-, node, member, isIt⟩
      · exact unchanged.trans same
      · exact absurd isIt (stillClosed node member)
  rw [draftAfter_length read] at stays
  exact (Draft.branch_closeDialogue stays.1).trans stays.2

/-- Where a line is the last thing made, a spoken line gives no branch a body. -/
theorem branch_of_speech_after_line (read : Draft.empty.stepAll scope statements = .ok final)
    (found : statements[place]? = some statement) (spoken : statement.construct = .speech)
    (latest : ((draftAfter scope statements place).roomFor statement).latest = .line) :
    (draftAfter scope statements (place + 1)).graph.branch id =
      ((draftAfter scope statements place).roomFor statement).graph.branch id := by
  have stepped := step_draftAfter read found
  unfold Draft.step at stepped
  simp only [spoken] at stepped
  obtain ⟨title, speech, commands, attached, directed, -, -, -, -, attach, direct, after⟩ :=
    Draft.stepSpeech_eq_ok_iff.mp stepped
  rw [after]
  have placed := (Graph.branch_congr (directed.branches_gatherStrays
    ((draftAfter scope statements place).roomFor statement).graph.lines.size statement.indent)
      id).trans (Graph.branch_congr (Draft.branches_directSpeech direct) id)
  refine placed.trans ?_
  rcases Draft.branch_attachSpeech attach id with unchanged | ⟨-, isBranch, -⟩
  · exact unchanged
  · have isLine : ((draftAfter scope statements place).roomFor statement).latest = .branch :=
      isBranch
    rw [latest] at isLine
    cases isLine

/-! ## The last line of an arm -/

/-- A plain line is the innermost open one until something shallower or another line comes. -/
theorem innermost_of_isPlain (read : Draft.empty.stepAll scope statements = .ok final)
    (plain : IsPlain statements place) (after : place < later)
    (within : later ≤ statements.length) (dialogue : SameDialogue statements place later)
    (quiet : ∀ between, place < between → between < later →
      constructAt statements between ≠ some .speech ∧
        indentAt statements place ≤ indentAt statements between) :
    ∃ outer, (draftAfter scope statements later).lines =
      ⟨lineAt scope statements place, indentAt statements place⟩ :: outer := by
  refine draftAfter_induction (motive := fun count => ∃ outer,
    (draftAfter scope statements count).lines =
      ⟨lineAt scope statements place, indentAt statements place⟩ :: outer) read after within ?_ ?_
  · obtain ⟨statement, speech, found, spoken, readSpeech, unmarked⟩ := plain
    have stepped := step_draftAfter read found
    unfold Draft.step at stepped
    simp only [spoken] at stepped
    obtain ⟨other, readOther, lines⟩ := Draft.lines_of_stepSpeech stepped
    rw [readSpeech] at readOther
    cases readOther
    rw [if_pos unmarked] at lines
    rw [lines, indentAt_eq found, lineAt_eq read found spoken]
    exact ⟨_, rfl⟩
  · rintro between statement behind before found stepped ⟨outer, lines⟩
    obtain ⟨silent, noDeeper⟩ := quiet between behind before
    have stays := dialogue between behind before
    rw [constructAt_of_found found] at silent stays
    rw [indentAt_eq found] at noDeeper
    rw [Draft.lines_of_step_silent (fun same => silent (congrArg some same))
      (fun same => stays (congrArg some same)) stepped, lines, List.dropWhile_cons_of_neg]
    · exact ⟨outer, rfl⟩
    · simpa using noDeeper

end Reading

end Parley
