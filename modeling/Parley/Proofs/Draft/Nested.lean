import Parley.Proofs.Draft.Choices

/-!
# Open nodes are nested

Branches and choices are closed from the innermost outward.  So those that are open are
nested in one another: each is older than the ones inside it and no deeper, and a choice
is shallower than the choices in its body.
-/

namespace Parley

open Parley.Script

/-- Of nodes that get no deeper, dropping those at an indentation and deeper leaves the
shallower ones. -/
theorem lt_of_mem_dropWhile {stack : List OpenNode} {indent : Nat}
    (sorted : stack.Pairwise fun inner outer => outer.indent ≤ inner.indent) {node : OpenNode}
    (member : node ∈ stack.dropWhile fun node => indent ≤ node.indent) : node.indent < indent := by
  rcases rest : stack.dropWhile fun node => indent ≤ node.indent with _ | ⟨first, others⟩
  · rw [rest] at member
    cases member
  · have shallow := not_of_dropWhile_eq_cons rest
    have remaining := sorted.sublist (List.dropWhile_sublist fun node => indent ≤ node.indent)
    rw [rest] at member remaining
    simp only [decide_eq_false_iff_not, Nat.not_le] at shallow
    rcases List.mem_cons.mp member with rfl | member
    · exact shallow
    · exact Nat.lt_of_le_of_lt (List.rel_of_pairwise_cons remaining member) shallow

/-- The same for dropping those that are strictly deeper. -/
theorem le_of_mem_dropWhile {stack : List OpenNode} {indent : Nat}
    (sorted : stack.Pairwise fun inner outer => outer.indent ≤ inner.indent) {node : OpenNode}
    (member : node ∈ stack.dropWhile fun node => indent < node.indent) : node.indent ≤ indent := by
  have shallower : node.indent < indent + 1 := lt_of_mem_dropWhile sorted member
  exact Nat.le_of_lt_succ shallower

namespace Draft

variable {scope : Scope} {draft before after : Draft} {statement : Statement}

/-- The open branches and choices of a draft are nodes of its graph, each inside the
next. -/
structure Nested (draft : Draft) : Prop where
  branches : draft.branches.Pairwise fun inner outer =>
    outer.id < inner.id ∧ outer.indent ≤ inner.indent
  choices : draft.choices.Pairwise fun inner outer =>
    outer.id < inner.id ∧ outer.indent < inner.indent
  knownBranches : ∀ branch ∈ draft.branches, branch.id < draft.graph.branches.size
  knownChoices : ∀ choice ∈ draft.choices, choice.id < draft.graph.choices.size

theorem Nested.empty : Draft.empty.Nested where
  branches := List.Pairwise.nil
  choices := List.Pairwise.nil
  knownBranches _ member := by cases member
  knownChoices _ member := by cases member

/-! ## Sizes -/

theorem size_branches_attachBranch (draft : Draft) (title : String) (branch : BranchIndex) :
    (draft.attachBranch title branch).graph.branches.size = draft.graph.branches.size := by
  unfold attachBranch
  split
  · rfl
  all_goals split <;> rfl

theorem size_branches_attachSpeech {title : String} {line : LineIndex} {indent : Nat}
    (attached : draft.attachSpeech title line indent = .ok after) :
    after.graph.branches.size = draft.graph.branches.size := by
  unfold attachSpeech at attached
  split at attached
  · cases attached
    rfl
  · cases attached
    rfl
  · split at attached
    · cases attached
    · cases attached
      exact congrArg Array.size (Graph.branches_foldl_setNext _ OpenNode.id _ line)
  · split at attached <;> cases attached <;> rfl
  · split at attached
    · cases attached
      exact Graph.size_branches_modifyBranch _ _ _
    · cases attached
      rfl

theorem branches_directSpeech {line : LineIndex} {indent depth : Nat}
    (directed : draft.directSpeech line indent depth = .ok after) :
    after.graph.branches = draft.graph.branches := by
  unfold directSpeech at directed
  split at directed
  · cases directed
    rfl
  · split at directed <;> cases directed
    rfl

theorem branches_gatherStrays (draft : Draft) (line : LineIndex) (indent : Nat) :
    (draft.gatherStrays line indent).graph.branches = draft.graph.branches := by
  unfold gatherStrays
  split
  · exact draft.graph.branches_foldl_setNext OpenNode.id _ line
  · rfl

theorem graphBranches_settleChoice (draft : Draft) (indent : Nat) :
    (draft.settleChoice indent).graph.branches = draft.graph.branches := by
  unfold settleChoice
  split
  · split
    · split <;> rfl
    · rfl
  · rfl

theorem size_branches_makeRoom (draft : Draft) (indent : Nat) :
    (draft.makeRoom indent).graph.branches.size = draft.graph.branches.size :=
  (closeBranchAt_keeps (fun closed => closed.graph.branches.size) size_branches_completeBranch _
    indent).trans (congrArg Array.size (draft.graphBranches_settleChoice indent))

theorem graphBranches_finishBodiless (draft : Draft) :
    draft.finishBodiless.graph.branches = draft.graph.branches := by
  unfold finishBodiless
  split
  · split <;> rfl
  · rfl

/-- Each first arm makes one branch, and nothing else makes any. -/
theorem size_branches_of_step (read : before.step scope statement = .ok after) :
    after.graph.branches.size =
      before.graph.branches.size + if statement.construct = .ifArm then 1 else 0 := by
  let closed := before.closeDeepBranches statement.indent
  have size : closed.graph.branches.size = before.graph.branches.size :=
    before.size_branches_closeDeepBranches statement.indent
  unfold step at read
  split at read
  · rename_i construct
    obtain ⟨title, -, -, -, rfl⟩ := stepTitle_eq_ok_iff.mp read
    rw [if_neg (by simp [construct])]
    exact (closeDialogue_keeps (fun closed => closed.graph.branches.size)
      size_branches_completeBranch closed).trans size
  · rename_i construct
    obtain ⟨option, commands, conditions, root, -, -, -, -, rfl⟩ := stepOption_eq_ok_iff.mp read
    rw [if_neg (by simp [construct]), graph_offer, graphBranches_finishBodiless]
    exact size
  · rename_i construct
    obtain ⟨title, source, conditions, -, -, -, -, rfl⟩ := stepIfArm_eq_ok_iff.mp read
    rw [if_pos construct, ← size]
    exact (size_branches_attachBranch { closed with
      graph := closed.graph.addBranch ⟨[⟨conditions, none⟩]⟩
      branches := ⟨closed.graph.branches.size, statement.indent⟩ :: closed.branches }
        title closed.graph.branches.size).trans (Graph.size_branches_addBranch _ _)
  · rename_i construct
    obtain ⟨source, branch, conditions, -, -, -, -, rfl⟩ := stepElseArm_eq_ok_iff.mp read
    rw [if_neg (by simp [construct])]
    exact (Graph.size_branches_modifyBranch _ _ _).trans size
  · rename_i construct
    obtain ⟨title, speech, commands, attached, directed, -, -, -, -, attach, direct, rfl⟩ :=
      stepSpeech_eq_ok_iff.mp read
    rw [if_neg (by simp [construct])]
    have attachedSize := size_branches_attachSpeech attach
    have directedBranches := branches_directSpeech direct
    calc
      (directed.gatherStrays _ statement.indent).graph.branches.size
          = directed.graph.branches.size :=
        congrArg Array.size (directed.branches_gatherStrays _ _)
      _ = attached.graph.branches.size := congrArg Array.size directedBranches
      _ = (closed.makeRoom statement.indent).graph.branches.size := attachedSize
      _ = closed.graph.branches.size := closed.size_branches_makeRoom statement.indent
      _ = before.graph.branches.size + 0 := size

/-! ## Steps -/

theorem Nested.sortedBranches (nested : draft.Nested) :
    draft.branches.Pairwise fun inner outer => outer.indent ≤ inner.indent :=
  nested.branches.imp fun both => both.2

theorem Nested.sortedChoices (nested : draft.Nested) :
    draft.choices.Pairwise fun inner outer => outer.indent ≤ inner.indent :=
  nested.choices.imp fun both => Nat.le_of_lt both.2

theorem branches_closeBranchAt_suffix (draft : Draft) (indent : Nat) :
    (draft.closeBranchAt indent).branches <:+ draft.branches := by
  rw [branches_closeBranchAt]
  rcases draft.branches with _ | ⟨branch, outer⟩
  · exact List.suffix_refl _
  · dsimp only
    split
    · exact List.suffix_cons _ _
    · exact List.suffix_refl _

/-- A statement keeps branches that are no deeper than itself, and opens one if it is a first
arm. -/
theorem exists_branches_of_step (nested : before.Nested)
    (read : before.step scope statement = .ok after) :
    ∃ kept, after.branches = (if statement.construct = .ifArm then
          [⟨before.graph.branches.size, statement.indent⟩] else []) ++ kept ∧
      kept <:+ before.branches ∧ ∀ branch ∈ kept, branch.indent ≤ statement.indent := by
  let closed := before.closeDeepBranches statement.indent
  have suffix : closed.branches <:+ before.branches := by
    rw [branches_closeDeepBranches]
    exact List.dropWhile_suffix _
  have shallow : ∀ branch ∈ closed.branches, branch.indent ≤ statement.indent := by
    intro branch member
    rw [branches_closeDeepBranches] at member
    exact le_of_mem_dropWhile nested.sortedBranches member
  unfold step at read
  split at read
  · rename_i construct
    obtain ⟨title, -, -, -, rfl⟩ := stepTitle_eq_ok_iff.mp read
    refine ⟨[], ?_, List.nil_suffix, fun _ member => by cases member⟩
    rw [if_neg (by simp [construct])]
    rfl
  · rename_i construct
    obtain ⟨-, -, branches, -, -⟩ := stacks_of_stepOption read
    refine ⟨closed.branches, ?_, suffix, shallow⟩
    rw [if_neg (by simp [construct]), branches]
    rfl
  · rename_i construct
    obtain ⟨branches, -, -⟩ := stacks_of_stepIfArm read
    refine ⟨closed.branches, ?_, suffix, shallow⟩
    rw [if_pos construct, branches, before.size_branches_closeDeepBranches]
    rfl
  · rename_i construct
    obtain ⟨branches, -, -⟩ := stacks_of_stepElseArm read
    refine ⟨closed.branches, ?_, suffix, shallow⟩
    rw [if_neg (by simp [construct]), branches]
    rfl
  · rename_i construct
    obtain ⟨branches, -, -⟩ := stacks_of_stepSpeech read
    have inner := closed.branches_closeBranchAt_suffix statement.indent
    refine ⟨(closed.closeBranchAt statement.indent).branches, ?_, inner.trans suffix, ?_⟩
    · rw [if_neg (by simp [construct]), branches]
      rfl
    · intro branch member
      exact shallow branch (inner.mem member)

/-- The choices that closing a branch leaves open. -/
theorem choices_completeBranch_suffix (draft : Draft) (branch : OpenNode) (outer : List OpenNode) :
    ({ draft with branches := outer }.completeBranch branch).choices <:+ draft.choices := by
  unfold completeBranch
  split
  · exact List.suffix_refl _
  · exact List.dropWhile_suffix _

theorem choices_suffix_of_closes (closes : before.Closes after) :
    after.choices <:+ before.choices := by
  induction closes with
  | refl => exact List.suffix_refl _
  | close _ _ ih => exact (choices_completeBranch_suffix _ _ _).trans ih

theorem choices_closeDeepBranches_suffix (draft : Draft) (indent : Nat) :
    (draft.closeDeepBranches indent).choices <:+ draft.choices :=
  choices_suffix_of_closes (draft.closes_closeDeepBranches indent)

theorem choices_makeRoom_suffix (draft : Draft) (indent : Nat) :
    (draft.makeRoom indent).choices <:+ draft.choices := by
  rw [← draft.choices_settleChoice indent]
  exact choices_suffix_of_closes (closes_closeBranchAt _ indent)

theorem branches_makeRoom_suffix (draft : Draft) (indent : Nat) :
    (draft.makeRoom indent).branches <:+ draft.branches := by
  rw [← draft.branches_settleChoice indent]
  exact branches_closeBranchAt_suffix _ indent

/-- Open nodes stay nested while the outer ones are kept and no node is lost. -/
theorem Nested.of_suffix (nested : before.Nested) (branches : after.branches <:+ before.branches)
    (choices : after.choices <:+ before.choices)
    (branchSize : before.graph.branches.size ≤ after.graph.branches.size)
    (choiceSize : before.graph.choices.size ≤ after.graph.choices.size) : after.Nested where
  branches := nested.branches.sublist branches.sublist
  choices := nested.choices.sublist choices.sublist
  knownBranches branch member :=
    Nat.lt_of_lt_of_le (nested.knownBranches branch (branches.mem member)) branchSize
  knownChoices choice member :=
    Nat.lt_of_lt_of_le (nested.knownChoices choice (choices.mem member)) choiceSize

theorem Nested.closeDeepBranches (nested : draft.Nested) (indent : Nat) :
    (draft.closeDeepBranches indent).Nested := by
  apply nested.of_suffix
  · rw [branches_closeDeepBranches]
    exact List.dropWhile_suffix _
  · exact draft.choices_closeDeepBranches_suffix indent
  · exact Nat.le_of_eq (draft.size_branches_closeDeepBranches indent).symm
  · exact Nat.le_of_eq (congrArg Array.size (draft.graphChoices_closeDeepBranches indent)).symm

theorem Nested.makeRoom (nested : draft.Nested) (indent : Nat) : (draft.makeRoom indent).Nested := by
  apply nested.of_suffix
  · exact draft.branches_makeRoom_suffix indent
  · exact draft.choices_makeRoom_suffix indent
  · exact Nat.le_of_eq (draft.size_branches_makeRoom indent).symm
  · exact Nat.le_of_eq (draft.size_choices_makeRoom indent).symm

/-- The statement is an option that may have a body. -/
def OpensChoice (statement : Statement) : Prop :=
  statement.construct = .option ∧
    ∃ option, OptionLine.read statement.content = .ok option ∧ option.terminal = false

/-- A statement keeps choices of its dialogue that are shallower than itself, and opens one if it
is an option that may have a body. -/
theorem exists_choices_of_step (nested : before.Nested)
    (read : before.step scope statement = .ok after) :
    ∃ opened kept, after.choices = opened ++ kept ∧
      (opened = [] ∨ opened = [⟨before.graph.choices.size, statement.indent⟩] ∧
        OpensChoice statement) ∧
      kept <:+ before.choices ∧
      ∀ choice ∈ kept, choice.indent < statement.indent ∧ statement.construct ≠ .dialogue := by
  let closed := before.closeDeepBranches statement.indent
  have suffix : closed.choices <:+ before.choices :=
    before.choices_closeDeepBranches_suffix statement.indent
  have shallow : statement.construct ≠ .dialogue → ∀ rest, rest <:+ before.choices →
      ∀ choice ∈ rest.dropWhile fun choice => statement.indent ≤ choice.indent,
        choice.indent < statement.indent ∧ statement.construct ≠ .dialogue :=
    fun stays rest within choice member =>
      ⟨lt_of_mem_dropWhile (nested.sortedChoices.sublist within.sublist) member, stays⟩
  have left := (List.dropWhile_suffix fun choice : OpenNode =>
    statement.indent ≤ choice.indent).trans suffix
  unfold step at read
  split at read
  · obtain ⟨title, -, -, -, rfl⟩ := stepTitle_eq_ok_iff.mp read
    exact ⟨[], [], rfl, Or.inl rfl, List.nil_suffix, fun _ member => by cases member⟩
  · rename_i construct
    obtain ⟨option, readOption, -, choices, -⟩ := stacks_of_stepOption read
    have size : closed.graph.choices.size = before.graph.choices.size :=
      congrArg Array.size (before.graphChoices_closeDeepBranches statement.indent)
    have within : (if closed.latest = .choice then closed.choices.drop 1 else closed.choices) <:+
        before.choices := by
      split
      · exact (List.drop_suffix _ _).trans suffix
      · exact suffix
    refine ⟨_, _, choices, ?_, (List.dropWhile_suffix _).trans within,
      shallow (by simp [construct]) _ within⟩
    rcases terminal : option.terminal with _ | _
    · refine Or.inr ⟨?_, construct, option, readOption, terminal⟩
      rw [if_neg (by simp), ← size]
    · exact Or.inl (if_pos rfl)
  · rename_i construct
    obtain ⟨-, choices, -⟩ := stacks_of_stepIfArm read
    exact ⟨[], _, choices, Or.inl rfl, left, shallow (by simp [construct]) _ suffix⟩
  · rename_i construct
    obtain ⟨-, choices, -⟩ := stacks_of_stepElseArm read
    exact ⟨[], _, choices, Or.inl rfl, left, shallow (by simp [construct]) _ suffix⟩
  · rename_i construct
    obtain ⟨-, choices, -⟩ := stacks_of_stepSpeech read
    exact ⟨[], _, choices, Or.inl rfl, left, shallow (by simp [construct]) _ suffix⟩

/-- Reading a statement keeps open nodes nested. -/
theorem Nested.step (nested : before.Nested) (read : before.step scope statement = .ok after) :
    after.Nested := by
  obtain ⟨keptBranches, branches, branchSuffix, noDeeper⟩ := exists_branches_of_step nested read
  obtain ⟨opened, keptChoices, choices, fresh, choiceSuffix, shallower⟩ :=
    exists_choices_of_step nested read
  have branchSize := size_branches_of_step read
  have choiceSize := size_choices_of_step read
  have olderBranch : ∀ branch ∈ keptBranches, branch.id < before.graph.branches.size :=
    fun branch member => nested.knownBranches branch (branchSuffix.mem member)
  have olderChoice : ∀ choice ∈ keptChoices, choice.id < before.graph.choices.size :=
    fun choice member => nested.knownChoices choice (choiceSuffix.mem member)
  have branchesNested := nested.branches.sublist branchSuffix.sublist
  have choicesNested := nested.choices.sublist choiceSuffix.sublist
  constructor
  · rw [branches]
    split
    · apply List.Pairwise.cons _ branchesNested
      exact fun branch member => ⟨olderBranch branch member, noDeeper branch member⟩
    · exact branchesNested
  · rw [choices]
    rcases fresh with rfl | ⟨rfl, -⟩
    · exact choicesNested
    · apply List.Pairwise.cons _ choicesNested
      exact fun choice member => ⟨olderChoice choice member, (shallower choice member).1⟩
  · intro branch member
    rw [branches] at member
    rw [branchSize]
    rcases List.mem_append.mp member with opened | kept
    · split at opened
      · rw [List.mem_singleton.mp opened]
        rename_i construct
        rw [if_pos construct]
        exact Nat.lt_succ_self _
      · cases opened
    · exact Nat.lt_of_lt_of_le (olderBranch branch kept) (Nat.le_add_right _ _)
  · intro choice member
    rw [choices] at member
    rw [choiceSize]
    rcases List.mem_append.mp member with new | kept
    · rcases fresh with rfl | ⟨rfl, opens⟩
      · cases new
      · rw [List.mem_singleton.mp new, if_pos opens.1]
        exact Nat.lt_succ_self _
    · exact Nat.lt_of_lt_of_le (olderChoice choice kept) (Nat.le_add_right _ _)

theorem Nested.stepAll (nested : before.Nested) {statements : List Statement}
    (read : before.stepAll scope statements = .ok after) : after.Nested := by
  induction statements generalizing before with
  | nil =>
      cases read
      exact nested
  | cons statement rest ih =>
      obtain ⟨middle, first, others⟩ := stepAll_cons_eq_ok_iff.mp read
      exact ih (nested.step first) others

end Draft

section Reading

variable {scope : Scope} {statements : List Statement}

theorem nested_draftAfter (count : Nat) : (draftAfter scope statements count).Nested := by
  unfold draftAfter
  split
  · rename_i draft read
    exact Draft.Nested.empty.stepAll read
  · exact Draft.Nested.empty

/-- What is true after some statements and kept by each statement from there on is true after
all of them. -/
theorem draftAfter_induction {final : Draft}
    (read : Draft.empty.stepAll scope statements = .ok final) {motive : Nat → Prop}
    {start stop : Nat} (le : start ≤ stop) (within : stop ≤ statements.length)
    (first : motive start)
    (step : ∀ place statement, start ≤ place → place < stop →
      statements[place]? = some statement →
      (draftAfter scope statements place).step scope statement =
        .ok (draftAfter scope statements (place + 1)) →
      motive place → motive (place + 1)) : motive stop := by
  induction le with
  | refl => exact first
  | @step stop le ih =>
      have found : statements[stop]? = some statements[stop] := List.getElem?_eq_getElem within
      apply step stop _ le (Nat.lt_succ_self _) found (step_draftAfter read found)
      apply ih (Nat.le_of_lt within)
      exact fun place statement after before =>
        step place statement after (Nat.lt_succ_of_lt before)

end Reading

end Parley
