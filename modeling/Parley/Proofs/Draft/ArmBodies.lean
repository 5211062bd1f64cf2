import Parley.Proofs.Draft.Arms

/-!
# The bodies of arms

An arm begins without a body, as the last arm of the innermost branch.  Only the line right after
it, one level deeper, gives it one, and it has one from there on.  Anything else that may come
closes the branch, so the arm never gets a body.
-/

namespace Parley

open Parley.Script

/-- What may become of a branch while more is read: it gets further arms, and its last arm gets a
body. -/
inductive Branch.Grows (branch : Branch) : Branch → Prop where
  | refl : branch.Grows branch
  | addArm {grown : Branch} (grows : branch.Grows grown) (conditions : List Call)
      (body : Option LineIndex) : branch.Grows (grown.addArm conditions body)
  | setLastBody {grown : Branch} (grows : branch.Grows grown) (line : LineIndex) :
      branch.Grows (grown.setLastBody line)

namespace Branch

variable {branch grown later : Branch}

theorem Grows.trans (early : branch.Grows grown) (late : grown.Grows later) :
    branch.Grows later := by
  induction late with
  | refl => exact early
  | addArm _ conditions body ih => exact ih.addArm conditions body
  | setLastBody _ line ih => exact ih.setLastBody line

theorem Grows.of_eq (same : grown = branch) : branch.Grows grown :=
  same ▸ .refl

/-- The arm that gets a body is the last one. -/
theorem setLastBody_of_arms_eq {earlier : List Arm} {arm : Arm}
    (arms : branch.arms = earlier ++ [arm]) (line : LineIndex) :
    (branch.setLastBody line).arms = earlier ++ [{ arm with body := some line }] := by
  simp [setLastBody, arms]

/-- An arm stays where it is with the conditions that it has, and it keeps having a body. -/
theorem Grows.exists_arm (grows : branch.Grows grown) {index : Nat} {arm : Arm}
    (found : branch.arms[index]? = some arm) :
    ∃ kept, grown.arms[index]? = some kept ∧ kept.conditions = arm.conditions ∧
      (arm.body ≠ none → kept.body ≠ none) := by
  induction grows with
  | refl => exact ⟨arm, found, rfl, id⟩
  | @addArm grown _ conditions body ih =>
      obtain ⟨kept, there, same⟩ := ih
      have within := (List.getElem?_eq_some_iff.mp there).1
      refine ⟨kept, ?_, same⟩
      rw [arms_addArm, List.getElem?_append_left within, there]
  | @setLastBody grown _ line ih =>
      obtain ⟨kept, there, same, bodied⟩ := ih
      rcases List.eq_nil_or_concat grown.arms with none | ⟨earlier, last, arms⟩
      · rw [none] at there
        cases there
      · rw [List.concat_eq_append] at arms
        rw [setLastBody_of_arms_eq arms]
        rw [arms, List.getElem?_append] at there
        rw [List.getElem?_append]
        split at there
        · rename_i before
          exact ⟨kept, by rwa [if_pos before], same, bodied⟩
        · rename_i notBefore
          have isLast : index - earlier.length = 0 :=
            Nat.lt_one_iff.mp (List.getElem?_eq_some_iff.mp there).1
          rw [isLast] at there
          cases there
          refine ⟨{ kept with body := some line }, ?_, same, fun _ => by simp⟩
          rw [if_neg notBefore, isLast]
          rfl

end Branch

namespace Draft

variable {scope : Scope} {draft before after : Draft} {statement : Statement} {id : BranchIndex}
  {indent : Nat} {outer : List OpenNode}

/-- What closes branches adds arms behind those that are there. -/
theorem arms_prefix_of_closes (closes : before.Closes after) (id : BranchIndex) :
    (before.graph.branch id).arms <+: (after.graph.branch id).arms := by
  induction closes with
  | refl => exact List.prefix_refl _
  | @close closing branch outer _ _ ih =>
      refine ih.trans ?_
      unfold completeBranch
      split
      · exact List.prefix_refl _
      · rw [branch_addDefaultArm]
        split
        · exact List.prefix_append _ _
        · exact List.prefix_refl _

theorem branchGrows_of_closes (closes : before.Closes after) (id : BranchIndex) :
    (before.graph.branch id).Grows (after.graph.branch id) := by
  induction closes with
  | refl => exact .refl
  | @close closing branch outer _ _ ih =>
      unfold completeBranch
      split
      · exact ih
      · rw [branch_addDefaultArm]
        split
        · exact ih.addArm _ _
        · exact ih

/-- Every branch grows while a statement is read. -/
theorem branchGrows_of_step (read : before.step scope statement = .ok after)
    (known : id < before.graph.branches.size) :
    (before.graph.branch id).Grows (after.graph.branch id) := by
  have early := branchGrows_of_closes (before.closes_closeDeepBranches statement.indent) id
  rw [← before.size_branches_closeDeepBranches statement.indent] at known
  unfold Draft.step at read
  dsimp only at read
  generalize before.closeDeepBranches statement.indent = closed at *
  refine early.trans ?_
  split at read
  · obtain ⟨title, -, -, -, rfl⟩ := stepTitle_eq_ok_iff.mp read
    exact branchGrows_of_closes closed.closes_closeDialogue id
  · obtain ⟨option, commands, conditions, root, -, -, -, -, rfl⟩ := stepOption_eq_ok_iff.mp read
    exact .of_eq (Graph.branch_congr
      (branches_offer (closed.abandonDeepLines statement.indent) _ _ _) id)
  · obtain ⟨title, source, conditions, -, -, -, -, rfl⟩ := stepIfArm_eq_ok_iff.mp read
    rw [branch_openBranch, if_neg (Nat.ne_of_lt known)]
    exact .refl
  · obtain ⟨source, branch, conditions, -, -, -, -, rfl⟩ := stepElseArm_eq_ok_iff.mp read
    show (closed.graph.branch id).Grows ((closed.graph.modifyBranch branch _).branch id)
    rw [Graph.branch_modifyBranch_eq]
    split
    · exact Branch.Grows.refl.addArm _ _
    · exact .refl
  · obtain ⟨title, speech, commands, attached, directed, -, -, -, -, attach, direct, rfl⟩ :=
      stepSpeech_eq_ok_iff.mp read
    let room := closed.makeRoom statement.indent
    have settled : (closed.settleChoice statement.indent).graph.branch id = closed.graph.branch id :=
      Graph.branch_congr (graphBranches_settleChoice closed statement.indent) id
    have roomGrows : (closed.graph.branch id).Grows (room.graph.branch id) :=
      settled ▸ branchGrows_of_closes ((closed.settleChoice statement.indent).closes_closeBranchAt
        statement.indent) id
    have placed : (directed.gatherStrays room.graph.lines.size statement.indent).graph.branch id =
        attached.graph.branch id :=
      (Graph.branch_congr (directed.branches_gatherStrays _ _) id).trans
        (Graph.branch_congr (branches_directSpeech direct) id)
    refine roomGrows.trans ?_
    refine Branch.Grows.trans ?_ (.of_eq placed)
    rcases branch_attachSpeech attach id with unchanged | ⟨bodied, -⟩
    · exact .of_eq unchanged
    · exact bodied ▸ Branch.Grows.refl.setLastBody _

/-- A statement that is an arm leaves its branch innermost, with a last arm that has no body. -/
theorem stacks_of_armed (read : before.step scope statement = .ok after)
    (nested : before.Nested) (armed : before.armedBy statement = some id) :
    after.latest = .branch ∧ (∃ outer, after.branches = ⟨id, statement.indent⟩ :: outer) ∧
      ∃ earlier conditions, (after.graph.branch id).arms = earlier ++ [⟨conditions, none⟩] := by
  have closedNested := nested_closeDeepBranches nested statement.indent
  have size := before.size_branches_closeDeepBranches statement.indent
  unfold armedBy at armed
  unfold Draft.step at read
  dsimp only at read
  generalize before.closeDeepBranches statement.indent = closed at *
  split at read <;> rename_i construct <;> simp only [construct, reduceCtorEq] at armed
  · obtain ⟨branches, -, latest⟩ := stacks_of_stepIfArm read
    obtain ⟨title, source, conditions, -, -, -, -, rfl⟩ := stepIfArm_eq_ok_iff.mp read
    rw [← size] at armed
    cases armed
    refine ⟨latest, ⟨_, branches⟩, [], conditions, ?_⟩
    rw [branch_openBranch, if_pos rfl]
    rfl
  · obtain ⟨branches, -, latest⟩ := stacks_of_stepElseArm read
    obtain ⟨source, branch, conditions, -, found, -, -, rfl⟩ := stepElseArm_eq_ok_iff.mp read
    obtain ⟨outer, stack⟩ := branchAt_eq_ok_iff.mp found
    rw [stack] at armed
    cases armed
    have member : ⟨branch, statement.indent⟩ ∈ closed.branches := stack ▸ List.mem_cons_self
    refine ⟨latest, ⟨outer, branches.trans stack⟩, (closed.graph.branch branch).arms,
      conditions, ?_⟩
    show ((closed.graph.modifyBranch branch _).branch branch).arms = _
    rw [Graph.branch_modifyBranch_eq, if_pos ⟨rfl, closedNested.knownBranches _ member⟩]
    rfl

/-- While an arm is what was made last, a spoken line has to be one level deeper. -/
theorem indent_of_checkSpeech_of_branch (latest : draft.latest = .branch)
    (stack : draft.branches = ⟨id, indent⟩ :: outer) {level : Nat}
    (fits : draft.checkSpeech level = .ok ()) : level = indent + 1 := by
  by_cases same : indent + 1 = level
  · exact same.symm
  · simp [checkSpeech, latest, stack, topIndent, same, bind, Except.bind, pure, Except.pure, throw,
      throwThe, MonadExceptOf.throw] at fits

section AfterArm

variable (nested : draft.Nested) (latest : draft.latest = .branch)
  (stack : draft.branches = ⟨id, indent⟩ :: outer)

include nested stack

/-- What is not shallower than the innermost branch closes no branch. -/
theorem closeDeepBranches_of_le {level : Nat} (notShallower : indent ≤ level) :
    draft.closeDeepBranches level = draft := by
  have sorted := nested.sortedBranches
  rw [stack] at sorted
  refine closeDeepBranches_of_shallow fun node member => ?_
  rw [stack] at member
  rcases List.mem_cons.mp member with rfl | older
  · exact notShallower
  · exact Nat.le_trans ((List.pairwise_cons.mp sorted).1 node older) notShallower

include latest

/-- Right after an arm, only a line one level deeper does not leave the arm. -/
theorem isBody_of_step (read : draft.step scope statement = .ok after)
    (stays : statement.construct ≠ .dialogue) (notShallower : indent ≤ statement.indent) :
    statement.construct = .speech ∧ statement.indent = indent + 1 := by
  unfold Draft.step at read
  rw [closeDeepBranches_of_le nested stack notShallower] at read
  dsimp only at read
  split at read <;> rename_i construct
  · exact absurd construct stays
  · obtain ⟨option, commands, conditions, root, -, -, -, found, -⟩ := stepOption_eq_ok_iff.mp read
    have sameLatest : (draft.abandonDeepLines statement.indent).latest = .branch := latest
    simp [optionRoot, sameLatest] at found
  · obtain ⟨title, source, conditions, -, fits, -⟩ := stepIfArm_eq_ok_iff.mp read
    simp [checkIfArm, latest] at fits
    cases fits
  · obtain ⟨source, branch, conditions, -, -, fits, -⟩ := stepElseArm_eq_ok_iff.mp read
    simp [checkElseArm, latest] at fits
  · obtain ⟨title, speech, commands, attached, directed, -, fits, -⟩ :=
      stepSpeech_eq_ok_iff.mp read
    have settled : draft.settleChoice statement.indent = draft := by
      simp [settleChoice, latest]
    rw [settled] at fits
    exact ⟨construct, indent_of_checkSpeech_of_branch latest stack fits⟩

/-- A line one level deeper becomes the body of the arm. -/
theorem branch_of_body (read : draft.step scope statement = .ok after)
    (spoken : statement.construct = .speech) (level : statement.indent = indent + 1) :
    after.graph.branch id = (draft.graph.branch id).setLastBody draft.graph.lines.size := by
  have deeper : indent < statement.indent := level ▸ Nat.lt_succ_self indent
  have known : id < draft.graph.branches.size :=
    nested.knownBranches ⟨id, indent⟩ (stack ▸ List.mem_cons_self)
  unfold Draft.step at read
  rw [closeDeepBranches_of_le nested stack (Nat.le_of_lt deeper)] at read
  simp only [spoken] at read
  obtain ⟨title, speech, commands, attached, directed, -, -, -, -, attach, direct, rfl⟩ :=
    stepSpeech_eq_ok_iff.mp read
  have room : draft.makeRoom statement.indent = draft := by
    have settled : draft.settleChoice statement.indent = draft := by
      simp [settleChoice, latest]
    rw [makeRoom, settled, closeBranchAt, stack]
    exact if_neg (Nat.ne_of_lt deeper)
  rw [room] at attach direct ⊢
  refine (Graph.branch_congr (directed.branches_gatherStrays _ _) id).trans ?_
  refine (Graph.branch_congr (branches_directSpeech direct) id).trans ?_
  simp only [attachSpeech, addLine, latest, stack, Except.ok.injEq] at attach
  subst attach
  show ((draft.graph.addLine _).modifyBranch id _).branch id = _
  rw [Graph.branch_modifyBranch_eq, if_pos ⟨rfl, known⟩]
  rfl

omit latest

/-- What leaves an arm closes its branch and gives it at most a further arm. -/
theorem closed_of_leaving (read : draft.step scope statement = .ok after)
    (leaves : statement.construct = .dialogue ∨ statement.indent < indent) :
    (∀ node ∈ after.branches, node.id ≠ id) ∧
      (draft.graph.branch id).arms <+: (after.graph.branch id).arms := by
  have open' : ⟨id, indent⟩ ∈ draft.branches := stack ▸ List.mem_cons_self
  have older := nested.branches.imp fun both => both.1
  have known := nested.knownBranches _ open'
  let closed := draft.closeDeepBranches statement.indent
  have closes := draft.closes_closeDeepBranches statement.indent
  rcases leaves with title | shallower
  · unfold Draft.step at read
    simp only [title] at read
    obtain ⟨name, -, -, -, rfl⟩ := stepTitle_eq_ok_iff.mp read
    refine ⟨fun node member => (by cases member), ?_⟩
    exact (arms_prefix_of_closes closes id).trans
      (arms_prefix_of_closes closed.closes_closeDialogue id)
  · have gone : ∀ node ∈ closed.branches, node.id ≠ id := by
      intro node member same
      rw [branches_closeDeepBranches] at member
      have isIt := eq_of_older older ((List.dropWhile_sublist _).mem member) open' same
      have shallow := le_of_mem_dropWhile nested.sortedBranches member
      rw [isIt] at shallow
      exact Nat.not_lt_of_le shallow shallower
    have knownThen : id < closed.graph.branches.size := by
      rwa [draft.size_branches_closeDeepBranches]
    have rest : closed.step scope statement = .ok after := by
      unfold Draft.step at read ⊢
      rwa [closeDeepBranches_closeDeepBranches draft (Nat.le_refl _)]
    obtain ⟨kept, branches, suffix, -⟩ :=
      exists_branches_of_step (nested_closeDeepBranches nested statement.indent) rest
    constructor
    · intro node member
      rw [branches] at member
      rcases List.mem_append.mp member with new | old
      · split at new
        · rw [List.mem_singleton.mp new]
          exact Nat.ne_of_gt knownThen
        · cases new
      · exact gone node (suffix.mem old)
    · refine (arms_prefix_of_closes closes id).trans ?_
      rcases branch_of_step rest knownThen fun node member isIt =>
        absurd isIt (gone node member) with unchanged | ⟨-, node, member, isIt⟩
      · exact unchanged ▸ List.prefix_refl _
      · exact absurd isIt (gone node member)

end AfterArm

end Draft

section Reading

variable (scope : Scope) (statements : List Statement)

/-- The place of an arm among the arms of its branch. -/
def armIndexAt (place : Nat) : Nat :=
  (armsOf statements (armedAt scope statements) (armedAt scope statements place) place).length

/-- The arm of a graph that the arm at a place has become. -/
def Graph.armAt? (graph : Graph) (place : Nat) : Option Arm :=
  (graph.branch (armedAt scope statements place)).arms[armIndexAt scope statements place]?

/-- The body of the arm at a place begins right after it: with a line one level deeper. -/
def ArmBodyBegins (place : Nat) : Prop :=
  constructAt statements (place + 1) = some .speech ∧
    indentAt statements (place + 1) = indentAt statements place + 1

/-- The dialogue goes on after a place. -/
def GoesOn (place : Nat) : Prop :=
  ∃ construct, constructAt statements (place + 1) = some construct ∧ construct ≠ .dialogue

/-- Right after an arm its branch is the innermost one and the arm is its last, without a body. -/
structure IsNewest (place : Nat) : Prop where
  latest : (draftAfter scope statements (place + 1)).latest = .branch
  innermost : ∃ outer, (draftAfter scope statements (place + 1)).branches =
    ⟨armedAt scope statements place, indentAt statements place⟩ :: outer
  arms : ∃ earlier conditions, guardAt scope statements place = .ok conditions ∧
    earlier.length = armIndexAt scope statements place ∧
    ((draftAfter scope statements (place + 1)).graph.branch (armedAt scope statements place)).arms =
      earlier ++ [⟨conditions, none⟩]

variable {scope statements} {final : Draft} {place start : Nat} {id : BranchIndex}
  {statement : Statement}

theorem IsArm.exists_found (isArm : IsArm statements place) :
    ∃ statement, statements[place]? = some statement := by
  rcases isArm with first | further
  · obtain ⟨statement, found, -⟩ := Option.map_eq_some_iff.mp first
    exact ⟨statement, found⟩
  · obtain ⟨statement, found, -⟩ := Option.map_eq_some_iff.mp further
    exact ⟨statement, found⟩

theorem IsArm.isNewest (read : Draft.empty.stepAll scope statements = .ok final)
    (isArm : IsArm statements place) : IsNewest scope statements place := by
  obtain ⟨statement, found⟩ := isArm.exists_found
  have within := Nat.le_of_lt (List.getElem?_eq_some_iff.mp found).1
  have stepped := step_draftAfter read found
  have nested : (draftAfter scope statements place).Nested := nested_draftAfter place
  have armed := (armedBy_eq_some_iff read found).mpr ⟨isArm, rfl⟩
  obtain ⟨latest, ⟨outer, stack⟩, earlier, conditions, arms⟩ :=
    Draft.stacks_of_armed stepped nested armed
  -- The arms before this one are those of the script, so it comes where they end.
  obtain ⟨guards, readGuards, has⟩ := exists_guards read within (armedAt scope statements place)
  obtain ⟨asked, readAsked, hasMore⟩ := has.step_armed nested stepped armed
  have same := hasMore.conditions_eq (stack ▸ List.mem_cons_self) rfl
  rw [arms, List.map_append] at same
  obtain ⟨sameGuards, sameAsked⟩ := List.append_inj' same rfl
  refine ⟨latest, ⟨outer, ?_⟩, earlier, conditions, ?_, ?_, arms⟩
  · rw [stack, indentAt_eq found]
  · rw [guardAt, found]
    cases sameAsked
    exact readAsked
  · rw [← List.length_map (f := Arm.conditions), sameGuards, length_of_mapM_eq_ok readGuards]
    rfl

/-- Every branch grows to the end. -/
theorem grows_closeDialogue (read : Draft.empty.stepAll scope statements = .ok final)
    (within : start ≤ statements.length)
    (known : id < (draftAfter scope statements start).graph.branches.size) :
    ((draftAfter scope statements start).graph.branch id).Grows
      (final.closeDialogue.graph.branch id) := by
  have grows : ((draftAfter scope statements start).graph.branch id).Grows
      ((draftAfter scope statements statements.length).graph.branch id) := by
    refine draftAfter_induction (motive := fun count =>
      ((draftAfter scope statements start).graph.branch id).Grows
        ((draftAfter scope statements count).graph.branch id)) read within (Nat.le_refl _) .refl ?_
    intro between _ after before _ stepped soFar
    have mono := size_branches_mono read after (Nat.le_of_lt before)
    exact soFar.trans (Draft.branchGrows_of_step stepped (Nat.lt_of_lt_of_le known mono))
  rw [draftAfter_length read] at grows
  exact grows.trans (Draft.branchGrows_of_closes final.closes_closeDialogue id)

/-- What stands right after an arm in its dialogue begins its body, unless it is shallower than the
arm. -/
theorem armBodyBegins_iff (read : Draft.empty.stepAll scope statements = .ok final)
    (isArm : IsArm statements place) (goesOn : GoesOn statements place) :
    ArmBodyBegins statements place ↔
      indentAt statements place ≤ indentAt statements (place + 1) := by
  constructor
  · rintro ⟨-, level⟩
    exact level ▸ Nat.le_succ _
  · intro notShallower
    have newest := isArm.isNewest read
    obtain ⟨outer, stack⟩ := newest.innermost
    obtain ⟨construct, there, stays⟩ := goesOn
    obtain ⟨statement, found, rfl⟩ := Option.map_eq_some_iff.mp there
    rw [indentAt_eq found] at notShallower
    obtain ⟨spoken, level⟩ := Draft.isBody_of_step (nested_draftAfter (place + 1)) newest.latest
      stack (step_draftAfter read found) stays notShallower
    exact ⟨spoken ▸ there, by rw [indentAt_eq found, level]⟩

/-- In the end an arm has a body exactly if its body begins right after it. -/
theorem IsArm.exists_arm (read : Draft.empty.stepAll scope statements = .ok final)
    (isArm : IsArm statements place) :
    ∃ arm, final.closeDialogue.graph.armAt? scope statements place = some arm ∧
      guardAt scope statements place = .ok arm.conditions ∧
      (arm.body ≠ none ↔ ArmBodyBegins statements place) := by
  have newest := isArm.isNewest read
  obtain ⟨outer, stack⟩ := newest.innermost
  obtain ⟨earlier, conditions, readGuard, index, arms⟩ := newest.arms
  obtain ⟨_, foundArm⟩ := isArm.exists_found
  have within : place + 1 ≤ statements.length := (List.getElem?_eq_some_iff.mp foundArm).1
  have nested : (draftAfter scope statements (place + 1)).Nested := nested_draftAfter (place + 1)
  have known := nested.knownBranches _ (stack ▸ List.mem_cons_self)
  -- Where the arms only get more of them, the arm stays as it is.
  have bare : ∀ {grown : Branch},
      ((draftAfter scope statements (place + 1)).graph.branch
        (armedAt scope statements place)).arms <+: grown.arms →
      grown.arms[armIndexAt scope statements place]? = some ⟨conditions, none⟩ := by
    rintro grown ⟨more, same⟩
    rw [← same, arms, ← index]
    simp
  rcases found : statements[place + 1]? with _ | statement
  · have last : statements.length = place + 1 :=
      Nat.le_antisymm (List.getElem?_eq_none_iff.mp found) within
    have closes := Draft.arms_prefix_of_closes final.closes_closeDialogue
      (armedAt scope statements place)
    rw [← draftAfter_length read, last] at closes
    refine ⟨⟨conditions, none⟩, bare (draftAfter_length read ▸ last ▸ closes), readGuard, ?_⟩
    simp [ArmBodyBegins, constructAt, found]
  · have stepped := step_draftAfter read found
    have withinNext : place + 2 ≤ statements.length := (List.getElem?_eq_some_iff.mp found).1
    have knownNext := Nat.lt_of_lt_of_le known
      (size_branches_mono read (Nat.le_succ (place + 1)) withinNext)
    have begins_iff : ArmBodyBegins statements place ↔ statement.construct = .speech ∧
        statement.indent = indentAt statements place + 1 := by
      rw [ArmBodyBegins, constructAt_of_found found, indentAt_eq found, Option.some.injEq]
    rw [begins_iff]
    by_cases begins : statement.construct = .speech ∧
      statement.indent = indentAt statements place + 1
    · have bodied := Draft.branch_of_body nested newest.latest stack stepped begins.1 begins.2
      have grows := grows_closeDialogue read withinNext knownNext
      rw [bodied] at grows
      have last : (((draftAfter scope statements (place + 1)).graph.branch
          (armedAt scope statements place)).setLastBody
            (draftAfter scope statements (place + 1)).graph.lines.size).arms[armIndexAt scope
              statements place]? =
          some ⟨conditions, some (draftAfter scope statements (place + 1)).graph.lines.size⟩ := by
        rw [Branch.setLastBody_of_arms_eq arms, ← index]
        simp
      obtain ⟨arm, there, same, keeps⟩ := grows.exists_arm last
      exact ⟨arm, there, same ▸ readGuard, iff_of_true (keeps (by simp)) begins⟩
    · have leaves : statement.construct = .dialogue ∨
          statement.indent < indentAt statements place := by
        by_cases title : statement.construct = .dialogue
        · exact Or.inl title
        · refine Or.inr (Nat.lt_of_not_le fun notShallower => begins ?_)
          exact Draft.isBody_of_step nested newest.latest stack stepped title notShallower
      obtain ⟨closed, more⟩ := Draft.closed_of_leaving nested stack stepped leaves
      have kept := branch_of_closed read withinNext knownNext closed
      refine ⟨⟨conditions, none⟩, ?_, readGuard, ?_⟩
      · rw [Graph.armAt?, kept]
        exact bare more
      · exact iff_of_false (by simp) begins

end Reading

end Parley
