import Parley.Proofs.Draft.Titles

/-!
# The arms of a script

Every arm of a script becomes one arm of one branch.  A first arm opens a branch; a further arm
belongs to the innermost open branch, which stands at its indentation.  What closes a branch adds
an arm without conditions to it, unless it has got one, so the arms of a branch are those of the
script in their order and at most one more.
-/

namespace Parley

open Parley.Script

namespace Draft

variable {scope : Scope} {draft before after : Draft} {statement : Statement} {id : BranchIndex}
  {guards : List (List Call)}

/-- The conditions of an arm. -/
def guardOf (scope : Scope) (statement : Statement) : Except Fault (List Call) := do
  readGuard scope (← ArmLine.read statement.content)

/-- The branch that gets an arm from a statement. -/
def armedBy (draft : Draft) (statement : Statement) : Option BranchIndex :=
  match statement.construct with
  | .ifArm => some draft.graph.branches.size
  | .elseArm => (draft.closeDeepBranches statement.indent).branches.head?.map OpenNode.id
  | .dialogue | .option | .speech => none

/-- The arms of a branch ask for the conditions of a list, in its order.  Once the branch is closed,
an arm without conditions may follow, if all others ask for something. -/
def HasGuards (draft : Draft) (id : BranchIndex) (guards : List (List Call)) : Prop :=
  (draft.graph.branch id).arms.map Arm.conditions = guards ∨
    (draft.graph.branch id).arms.map Arm.conditions = guards ++ [[]] ∧ [] ∉ guards ∧
      ∀ node ∈ draft.branches, node.id ≠ id

namespace HasGuards

/-- The arms of an open branch are those of the list. -/
theorem conditions_eq (has : draft.HasGuards id guards) {node : OpenNode}
    (member : node ∈ draft.branches) (isIt : node.id = id) :
    (draft.graph.branch id).arms.map Arm.conditions = guards :=
  has.elim (fun same => same) fun closed => absurd isIt (closed.2.2 node member)

/-- No arm, no conditions. -/
theorem of_size_le (has : draft.HasGuards id guards) (unknown : draft.graph.branches.size ≤ id) :
    guards = [] := by
  rw [HasGuards, draft.graph.branch_eq_armless unknown] at has
  rcases has with same | ⟨same, -⟩
  · exact same.symm
  · cases guards <;> cases same

theorem of_conditions_eq (has : before.HasGuards id guards)
    (same : (after.graph.branch id).arms.map Arm.conditions =
      (before.graph.branch id).arms.map Arm.conditions)
    (closed : ∀ node ∈ after.branches, node.id = id → node ∈ before.branches) :
    after.HasGuards id guards := by
  rw [HasGuards, same]
  refine has.imp_right fun ⟨more, asks, gone⟩ => ⟨more, asks, fun node member isIt => ?_⟩
  exact gone node (closed node member isIt) isIt

/-- A branch that is closed gets an arm without conditions if it lacks one. -/
theorem completeBranch {branch : OpenNode} {outer : List OpenNode}
    (stack : draft.branches = branch :: outer) (older : ∀ node ∈ outer, node.id ≠ branch.id)
    (has : draft.HasGuards id guards) :
    ({ draft with branches := outer }.completeBranch branch).HasGuards id guards := by
  have kept : ∀ node ∈ ({ draft with branches := outer }.completeBranch branch).branches,
      node ∈ draft.branches := by
    intro node member
    rw [branches_completeBranch] at member
    exact stack ▸ List.mem_cons_of_mem branch member
  by_cases isIt : branch.id = id
  · have same := has.conditions_eq (stack ▸ List.mem_cons_self) isIt
    by_cases complete : (draft.graph.branch branch.id).isExhaustive = true
    · refine Or.inl ?_
      rw [Draft.completeBranch, if_pos complete]
      exact same
    · rw [Draft.completeBranch, if_neg complete, HasGuards, branch_addDefaultArm]
      split
      · refine Or.inr ⟨?_, ?_, ?_⟩
        · rw [Branch.arms_addArm, List.map_append]
          exact congrArg (· ++ [[]]) same
        · intro unconditional
          rw [← same] at unconditional
          obtain ⟨arm, member, none⟩ := List.mem_map.mp unconditional
          exact complete (isIt ▸ (Branch.isExhaustive_iff _).mpr ⟨arm, member, none⟩)
        · exact fun node member => isIt ▸ older node member
      · exact Or.inl same
  · refine has.of_conditions_eq ?_ fun node member _ => kept node member
    rw [branch_completeBranch_of_ne isIt]

theorem of_closes (has : before.HasGuards id guards)
    (older : before.branches.Pairwise fun inner outer => outer.id < inner.id)
    (closes : before.Closes after) : after.HasGuards id guards := by
  have both : after.HasGuards id guards ∧
      after.branches.Pairwise fun inner outer => outer.id < inner.id := by
    induction closes with
    | refl => exact ⟨has, older⟩
    | @close closing branch outer _ stack ih =>
        obtain ⟨soFar, nested⟩ := ih
        rw [stack] at nested
        obtain ⟨below, rest⟩ := List.pairwise_cons.mp nested
        refine ⟨soFar.completeBranch stack fun node member => Nat.ne_of_lt (below node member), ?_⟩
        rwa [branches_completeBranch]
  exact both.1

/-- A spoken line gives no branch another arm. -/
theorem stepSpeech (has : before.HasGuards id guards) (nested : before.Nested)
    (read : before.stepSpeech scope statement = .ok after) : after.HasGuards id guards := by
  obtain ⟨branches, -, -⟩ := stacks_of_stepSpeech read
  obtain ⟨title, speech, commands, attached, directed, -, -, -, -, attach, direct, rfl⟩ :=
    stepSpeech_eq_ok_iff.mp read
  let settled := before.settleChoice statement.indent
  let room := before.makeRoom statement.indent
  have stack : settled.branches = before.branches := branches_settleChoice before statement.indent
  have settledHas : settled.HasGuards id guards := by
    refine has.of_conditions_eq ?_ fun node member _ => stack ▸ member
    rw [Graph.branch_congr (graphBranches_settleChoice before statement.indent)]
  have older : settled.branches.Pairwise fun inner outer => outer.id < inner.id :=
    stack ▸ nested.branches.imp fun both => both.1
  have roomHas : room.HasGuards id guards :=
    settledHas.of_closes older (settled.closes_closeBranchAt statement.indent)
  refine roomHas.of_conditions_eq ?_ fun node member _ => ?_
  · have placed := (Graph.branch_congr (directed.branches_gatherStrays room.graph.lines.size
      statement.indent) id).trans (Graph.branch_congr (branches_directSpeech direct) id)
    refine (congrArg (fun branch : Branch => branch.arms.map Arm.conditions) placed).trans ?_
    rcases branch_attachSpeech attach id with same | ⟨bodied, -⟩
    · exact congrArg (fun branch : Branch => branch.arms.map Arm.conditions) same
    · exact (congrArg (fun branch : Branch => branch.arms.map Arm.conditions) bodied).trans
        (Branch.conditions_setLastBody _ _)
  · rw [branches] at member
    show node ∈ (settled.closeBranchAt statement.indent).branches
    rwa [branches_closeBranchAt, stack, ← branches_closeBranchAt]

/-- A branch that gets no arm from a statement keeps those that it has. -/
theorem step_other (has : before.HasGuards id guards) (nested : before.Nested)
    (read : before.step scope statement = .ok after)
    (other : before.armedBy statement ≠ some id) : after.HasGuards id guards := by
  have older := nested.branches.imp fun both => both.1
  have closedHas := has.of_closes older (before.closes_closeDeepBranches statement.indent)
  have closedNested := nested_closeDeepBranches nested statement.indent
  have size := before.size_branches_closeDeepBranches statement.indent
  unfold armedBy at other
  unfold Draft.step at read
  dsimp only at read
  generalize before.closeDeepBranches statement.indent = closed at *
  split at read <;> rename_i construct <;> simp only [construct] at other
  · obtain ⟨title, -, -, -, rfl⟩ := stepTitle_eq_ok_iff.mp read
    have ended := closedHas.of_closes (closedNested.branches.imp fun both => both.1)
      closed.closes_closeDialogue
    exact ended.of_conditions_eq rfl fun _ member => by cases member
  · obtain ⟨option, -, branches, -, -⟩ := stacks_of_stepOption read
    obtain ⟨_, commands, conditions, root, -, -, -, -, rfl⟩ := stepOption_eq_ok_iff.mp read
    refine closedHas.of_conditions_eq ?_ fun node member _ => branches ▸ member
    rw [Graph.branch_congr (branches_offer (closed.abandonDeepLines statement.indent) _ _ _)]
    rfl
  · obtain ⟨branches, -, -⟩ := stacks_of_stepIfArm read
    obtain ⟨title, source, conditions, -, -, -, -, rfl⟩ := stepIfArm_eq_ok_iff.mp read
    have older : id ≠ closed.graph.branches.size := fun same => other (by rw [same, size])
    refine closedHas.of_conditions_eq ?_ fun node member isIt => ?_
    · rw [branch_openBranch, if_neg older]
    · rw [branches] at member
      rcases List.mem_cons.mp member with rfl | member
      · exact absurd isIt.symm older
      · exact member
  · obtain ⟨branches, -, -⟩ := stacks_of_stepElseArm read
    obtain ⟨source, branch, conditions, -, found, -, -, rfl⟩ := stepElseArm_eq_ok_iff.mp read
    obtain ⟨outer, stack⟩ := branchAt_eq_ok_iff.mp found
    refine closedHas.of_conditions_eq ?_ fun node member _ => branches ▸ member
    show ((closed.graph.modifyBranch branch _).branch id).arms.map _ = _
    rw [Graph.branch_modifyBranch_eq, if_neg]
    rintro ⟨rfl, -⟩
    exact other (by rw [stack]; rfl)
  · exact closedHas.stepSpeech closedNested read

/-- The arm that a statement gives to a branch comes behind the others. -/
theorem step_armed (has : before.HasGuards id guards) (nested : before.Nested)
    (read : before.step scope statement = .ok after)
    (armed : before.armedBy statement = some id) :
    ∃ conditions, guardOf scope statement = .ok conditions ∧
      after.HasGuards id (guards ++ [conditions]) := by
  have older := nested.branches.imp fun both => both.1
  have closedHas := has.of_closes older (before.closes_closeDeepBranches statement.indent)
  have closedNested := nested_closeDeepBranches nested statement.indent
  have size := before.size_branches_closeDeepBranches statement.indent
  unfold armedBy at armed
  unfold Draft.step at read
  dsimp only at read
  generalize before.closeDeepBranches statement.indent = closed at *
  split at read <;> rename_i construct <;> simp only [construct, reduceCtorEq] at armed
  · obtain ⟨title, source, conditions, -, -, readSource, readConditions, rfl⟩ :=
      stepIfArm_eq_ok_iff.mp read
    rw [← size] at armed
    cases armed
    refine ⟨conditions, bind_eq_ok_iff.mpr ⟨some source, readSource, readConditions⟩, Or.inl ?_⟩
    rw [branch_openBranch, if_pos rfl, closedHas.of_size_le (Nat.le_refl _)]
    rfl
  · obtain ⟨source, branch, conditions, readSource, found, -, readConditions, rfl⟩ :=
      stepElseArm_eq_ok_iff.mp read
    obtain ⟨outer, stack⟩ := branchAt_eq_ok_iff.mp found
    rw [stack] at armed
    cases armed
    have member : ⟨branch, statement.indent⟩ ∈ closed.branches := stack ▸ List.mem_cons_self
    refine ⟨conditions, bind_eq_ok_iff.mpr ⟨source, readSource, readConditions⟩, Or.inl ?_⟩
    show ((closed.graph.modifyBranch branch _).branch branch).arms.map _ = _
    rw [Graph.branch_modifyBranch_eq, if_pos ⟨rfl, closedNested.knownBranches _ member⟩,
      Branch.arms_addArm, List.map_append, closedHas.conditions_eq member rfl]
    rfl

end HasGuards

end Draft

section Reading

variable (scope : Scope) (statements : List Statement)

/-- The statement at a place is an arm. -/
def IsArm (place : Nat) : Prop :=
  constructAt statements place = some .ifArm ∨ constructAt statements place = some .elseArm

instance (place : Nat) : Decidable (IsArm statements place) :=
  inferInstanceAs (Decidable (_ ∨ _))

/-- The places of a construct among the first statements. -/
def placesOf (construct : Construct) (count : Nat) : List Nat :=
  (List.range count).filter fun place => constructAt statements place = some construct

/-- The places of the arms of a branch among the first statements, where `owner` tells to which
branch each arm belongs. -/
def armsOf (owner : Nat → BranchIndex) (id : BranchIndex) (count : Nat) : List Nat :=
  (List.range count).filter fun place => IsArm statements place ∧ owner place = id

/-- The conditions of the arm at a place. -/
def guardAt (place : Nat) : Except Fault (List Call) :=
  match statements[place]? with
  | some statement => Draft.guardOf scope statement
  | none => .ok []

/-- The branch that gets the arm at a place. -/
def armedAt (place : Nat) : BranchIndex :=
  (statements[place]?.bind (draftAfter scope statements place).armedBy).getD 0

variable {scope statements} {final : Draft} {place count : Nat} {id : BranchIndex}
  {statement : Statement}

theorem placesOf_succ (found : statements[place]? = some statement) (construct : Construct) :
    placesOf statements construct (place + 1) = placesOf statements construct place ++
      if statement.construct = construct then [place] else [] := by
  rw [placesOf, List.range_succ, List.filter_append, List.filter_cons, List.filter_nil,
    constructAt_of_found found]
  simp [placesOf]

/-- Exactly the arms give a branch an arm. -/
theorem armedBy_eq_some_iff (read : Draft.empty.stepAll scope statements = .ok final)
    (found : statements[place]? = some statement) :
    (draftAfter scope statements place).armedBy statement = some id ↔
      IsArm statements place ∧ armedAt scope statements place = id := by
  have stepped := step_draftAfter read found
  have construct := constructAt_of_found found
  rw [IsArm, armedAt, found, construct, Option.bind_some]
  unfold Draft.step at stepped
  unfold Draft.armedBy
  split at stepped <;> rename_i isIt <;> simp only [isIt, reduceCtorEq, Option.some.injEq, or_self,
    or_false, false_or, true_and, false_and, Option.getD_some]
  obtain ⟨source, branch, conditions, -, branchFound, -⟩ :=
    Draft.stepElseArm_eq_ok_iff.mp stepped
  obtain ⟨outer, stack⟩ := Draft.branchAt_eq_ok_iff.mp branchFound
  rw [stack]
  simp

theorem armsOf_succ (read : Draft.empty.stepAll scope statements = .ok final)
    (found : statements[place]? = some statement) (id : BranchIndex) :
    armsOf statements (armedAt scope statements) id (place + 1) =
      armsOf statements (armedAt scope statements) id place ++
        if (draftAfter scope statements place).armedBy statement = some id then [place] else [] := by
  simp only [armedBy_eq_some_iff read found]
  rw [armsOf, List.range_succ, List.filter_append, List.filter_cons, List.filter_nil]
  simp [armsOf]

theorem armedAt_of_ifArm (opens : constructAt statements place = some .ifArm) :
    armedAt scope statements place = branchOpenedAt scope statements place := by
  obtain ⟨statement, found, construct⟩ := Option.map_eq_some_iff.mp opens
  rw [armedAt, found, Option.bind_some, Draft.armedBy, construct]
  rfl

/-- The first arms open the branches in their order. -/
theorem map_armedAt_placesOf (read : Draft.empty.stepAll scope statements = .ok final)
    (within : count ≤ statements.length) :
    (placesOf statements .ifArm count).map (armedAt scope statements) =
      List.range (draftAfter scope statements count).graph.branches.size := by
  refine draftAfter_induction (motive := fun count =>
    (placesOf statements .ifArm count).map (armedAt scope statements) =
      List.range (draftAfter scope statements count).graph.branches.size)
    read (Nat.zero_le count) within rfl ?_
  intro place statement _ _ found stepped soFar
  rw [placesOf_succ found, List.map_append, soFar, Draft.size_branches_of_step stepped]
  split
  · rename_i opens
    rw [List.range_succ, List.map_singleton,
      armedAt_of_ifArm (opens ▸ constructAt_of_found found)]
    rfl
  · rw [List.map_nil, List.append_nil, Nat.add_zero]

/-- Every open branch has been opened by a first arm of its dialogue. -/
theorem exists_ifArm_of_open (read : Draft.empty.stepAll scope statements = .ok final)
    (within : count ≤ statements.length) :
    ∀ node ∈ (draftAfter scope statements count).branches, ∃ opening < count,
      constructAt statements opening = some .ifArm ∧
      node = ⟨branchOpenedAt scope statements opening, indentAt statements opening⟩ ∧
      SameDialogue statements opening count := by
  refine draftAfter_induction (motive := fun count =>
    ∀ node ∈ (draftAfter scope statements count).branches, ∃ opening < count,
      constructAt statements opening = some .ifArm ∧
      node = ⟨branchOpenedAt scope statements opening, indentAt statements opening⟩ ∧
      SameDialogue statements opening count) read (Nat.zero_le count) within ?_ ?_
  · intro node member
    cases member
  · intro place statement _ _ found stepped soFar node member
    obtain ⟨kept, branches, suffix, -⟩ :=
      Draft.exists_branches_of_step (nested_draftAfter place) stepped
    rw [branches] at member
    rcases List.mem_append.mp member with new | old
    · split at new
      · rename_i opens
        refine ⟨place, Nat.lt_succ_self place, opens ▸ constructAt_of_found found, ?_,
          fun between after before => absurd before (Nat.not_lt_of_le after)⟩
        rw [List.mem_singleton.mp new, indentAt_eq found]
        rfl
      · cases new
    · obtain ⟨opening, before, opens, same, inside⟩ := soFar node (suffix.mem old)
      refine ⟨opening, Nat.lt_succ_of_lt before, opens, same, fun between after early => ?_⟩
      rcases Nat.lt_or_eq_of_le (Nat.le_of_lt_succ early) with early | rfl
      · exact inside between after early
      · -- A title closes all branches.
        rw [constructAt_of_found found]
        intro begins
        rw [← branches, (Draft.title_of_step stepped (Option.some.inj begins)).2] at member
        cases member

/-- A further arm belongs to a branch of its dialogue that has been opened at its indentation. -/
theorem exists_opening (read : Draft.empty.stepAll scope statements = .ok final)
    (further : constructAt statements place = some .elseArm) :
    ∃ opening < place, constructAt statements opening = some .ifArm ∧
      armedAt scope statements opening = armedAt scope statements place ∧
      indentAt statements opening = indentAt statements place ∧
      SameDialogue statements opening place := by
  obtain ⟨statement, found, construct⟩ := Option.map_eq_some_iff.mp further
  have within : place ≤ statements.length := Nat.le_of_lt (List.getElem?_eq_some_iff.mp found).1
  have stepped := step_draftAfter read found
  unfold Draft.step at stepped
  simp only [construct] at stepped
  obtain ⟨source, branch, conditions, -, branchFound, -⟩ :=
    Draft.stepElseArm_eq_ok_iff.mp stepped
  obtain ⟨outer, stack⟩ := Draft.branchAt_eq_ok_iff.mp branchFound
  have member : ⟨branch, statement.indent⟩ ∈ (draftAfter scope statements place).branches := by
    apply (List.dropWhile_sublist fun node : OpenNode => statement.indent < node.indent).mem
    rw [← Draft.branches_closeDeepBranches, stack]
    exact List.mem_cons_self
  obtain ⟨opening, before, opens, same, inside⟩ := exists_ifArm_of_open read within _ member
  injection same with isIt level
  refine ⟨opening, before, opens, ?_, ?_, inside⟩
  · rw [armedAt_of_ifArm opens, armedAt, found, Option.bind_some, Draft.armedBy, construct]
    dsimp only
    rw [stack, ← isIt]
    rfl
  · rw [indentAt_eq found, level]

/-- Of two first arms the earlier opens the earlier branch. -/
theorem branchOpenedAt_lt (read : Draft.empty.stepAll scope statements = .ok final)
    {opening : Nat} (opens : constructAt statements opening = some .ifArm) (before : opening < place)
    (within : place ≤ statements.length) :
    branchOpenedAt scope statements opening < branchOpenedAt scope statements place := by
  obtain ⟨statement, found, construct⟩ := Option.map_eq_some_iff.mp opens
  have size := Draft.size_branches_of_step (step_draftAfter read found)
  rw [if_pos construct] at size
  exact Nat.lt_of_lt_of_le (size ▸ Nat.lt_succ_self _) (size_branches_mono read before within)

/-- A branch begins with the arm that has opened it. -/
theorem head?_armsOf (read : Draft.empty.stepAll scope statements = .ok final)
    (within : count ≤ statements.length)
    (opens : (placesOf statements .ifArm count)[id]? = some place) :
    (armsOf statements (armedAt scope statements) id count).head? = some place := by
  have member := List.mem_filter.mp (List.mem_of_getElem? opens)
  have before : place < count := List.mem_range.mp member.1
  have isFirst : constructAt statements place = some .ifArm := by simpa using member.2
  have isIt : armedAt scope statements place = id := by
    have listed := congrArg (·[id]?) (map_armedAt_placesOf read within)
    simp only [List.getElem?_map, opens, Option.map_some] at listed
    obtain ⟨known, same⟩ := List.getElem?_eq_some_iff.mp listed.symm
    rw [List.getElem_range] at same
    exact same.symm
  rw [armsOf, List.head?_filter, List.find?_range_eq_some]
  refine ⟨?_, member.1, ?_⟩
  · simp [IsArm, isFirst, isIt]
  · intro earlier early
    simp only [Bool.not_eq_true', decide_eq_false_iff_not]
    rintro ⟨isArm, same⟩
    obtain ⟨opening, le, opening_opens, openedIt⟩ : ∃ opening ≤ earlier,
        constructAt statements opening = some .ifArm ∧
          armedAt scope statements opening = armedAt scope statements earlier := by
      rcases isArm with isFirst | isFurther
      · exact ⟨earlier, Nat.le_refl _, isFirst, rfl⟩
      · obtain ⟨opening, before, opens, same, -⟩ := exists_opening read isFurther
        exact ⟨opening, Nat.le_of_lt before, opens, same⟩
    have older := branchOpenedAt_lt read opening_opens (Nat.lt_of_le_of_lt le early)
      (Nat.le_trans (Nat.le_of_lt before) within)
    rw [← armedAt_of_ifArm opening_opens, ← armedAt_of_ifArm isFirst, openedIt, same, isIt] at older
    exact Nat.lt_irrefl _ older

/-- The arms of a branch ask for what the arms of the script do. -/
theorem exists_guards (read : Draft.empty.stepAll scope statements = .ok final)
    (within : count ≤ statements.length) (id : BranchIndex) :
    ∃ guards, (armsOf statements (armedAt scope statements) id count).mapM
        (guardAt scope statements) = .ok guards ∧
      (draftAfter scope statements count).HasGuards id guards := by
  refine draftAfter_induction (motive := fun count =>
    ∃ guards, (armsOf statements (armedAt scope statements) id count).mapM
        (guardAt scope statements) = .ok guards ∧
      (draftAfter scope statements count).HasGuards id guards)
    read (Nat.zero_le count) within ⟨[], rfl, Or.inl rfl⟩ ?_
  rintro place statement _ _ found stepped ⟨guards, readGuards, has⟩
  rw [armsOf_succ read found, List.mapM_append]
  split
  · rename_i armed
    obtain ⟨conditions, readConditions, more⟩ :=
      has.step_armed (nested_draftAfter place) stepped armed
    refine ⟨guards ++ [conditions], ?_, more⟩
    have readAt : [place].mapM (guardAt scope statements) = .ok [conditions] := by
      refine mapM_cons_eq_ok_iff.mpr ⟨conditions, [], ?_, rfl, rfl⟩
      rw [guardAt, found]
      exact readConditions
    exact bind_eq_ok_iff.mpr ⟨guards, readGuards, bind_eq_ok_iff.mpr ⟨_, readAt, rfl⟩⟩
  · rename_i other
    refine ⟨guards, ?_, has.step_other (nested_draftAfter place) stepped other⟩
    exact bind_eq_ok_iff.mpr ⟨guards, readGuards,
      bind_eq_ok_iff.mpr ⟨[], rfl, by rw [List.append_nil]; rfl⟩⟩

end Reading

end Parley
