import Parley.Proofs.Draft.Reading

/-!
# What a statement leaves open

A statement closes the branches deeper than itself and the choices that are at least
as deep, and each construct opens at most one node.  The lemmas here give the stacks
of branches and choices after a statement in terms of those before it, and say when
the closing of branches goes unnoticed: when none of them lacks an arm without
conditions.
-/

namespace Parley

open Parley.Script

/-- Dropping by a weaker test after a stronger one is dropping by the weaker one. -/
theorem dropWhile_dropWhile_of_imp {α : Type} {strong weak : α → Bool} {items : List α}
    (weaker : ∀ item, strong item = true → weak item = true) :
    (items.dropWhile strong).dropWhile weak = items.dropWhile weak := by
  induction items with
  | nil => rfl
  | cons first rest ih =>
      by_cases dropped : strong first = true
      · rw [List.dropWhile_cons_of_pos dropped, List.dropWhile_cons_of_pos (weaker first dropped)]
        exact ih
      · rw [List.dropWhile_cons_of_neg dropped]

/-- What is left by dropping begins with an item that is not dropped. -/
theorem not_of_dropWhile_eq_cons {α : Type} {drops : α → Bool} {items rest : List α} {first : α}
    (left : items.dropWhile drops = first :: rest) : drops first = false := by
  have stops := List.head?_dropWhile_not drops items
  rw [left] at stops
  exact stops

/-- Where an item that would be dropped stands below dropped items only, dropping from the top
leaves what a search through all items would leave. -/
theorem dropWhile_eq_filter_of_pairwise {α : Type} {drops : α → Bool} {items : List α}
    (below : (items.dropWhile drops).Pairwise fun upper lower =>
      drops lower = true → drops upper = true) :
    items.dropWhile drops = items.filter fun item => !drops item := by
  induction items with
  | nil => rfl
  | cons top rest ih =>
      by_cases dropped : drops top = true
      · rw [List.dropWhile_cons_of_pos dropped] at below ⊢
        rw [List.filter_cons_of_neg (by simp [dropped])]
        exact ih below
      · rw [List.dropWhile_cons_of_neg dropped] at below ⊢
        symm
        apply List.filter_eq_self.mpr
        intro item member
        have stays : drops item ≠ true := by
          rcases List.mem_cons.mp member with rfl | member
          · exact dropped
          · exact fun drops => dropped (List.rel_of_pairwise_cons below member drops)
        simpa using stays

namespace Draft

variable {scope : Scope} {draft before after : Draft} {statement : Statement}

/-! ## Closing branches -/

@[simp]
theorem branches_foldl_completeBranch (closed : List OpenNode) (draft : Draft) :
    (closed.foldl completeBranch draft).branches = draft.branches := by
  induction closed generalizing draft with
  | nil => rfl
  | cons branch rest ih => exact (ih _).trans (draft.branches_completeBranch branch)

@[simp]
theorem branches_closeDeepBranches (draft : Draft) (indent : Nat) :
    (draft.closeDeepBranches indent).branches =
      draft.branches.dropWhile fun branch => indent < branch.indent :=
  branches_foldl_completeBranch _ _

theorem foldl_completeBranch_with_branches (closed stack : List OpenNode) (draft : Draft) :
    closed.foldl completeBranch { draft with branches := stack } =
      { closed.foldl completeBranch draft with branches := stack } := by
  induction closed generalizing draft with
  | nil => rfl
  | cons branch rest ih =>
      rw [List.foldl_cons, completeBranch_with_branches, ih]
      rfl

/-- The end of a dialogue closes what a statement would have closed first. -/
theorem closeDialogue_closeDeepBranches (draft : Draft) (indent : Nat) :
    (draft.closeDeepBranches indent).closeDialogue = draft.closeDialogue := by
  rw [closeDialogue, branches_closeDeepBranches]
  have forgotten : { draft.closeDeepBranches indent with branches := [] } =
      (draft.branches.takeWhile fun branch => indent < branch.indent).foldl completeBranch
        { draft with branches := [] } := by
    rw [closeDeepBranches, ← foldl_completeBranch_with_branches]
  rw [forgotten, ← List.foldl_append, List.takeWhile_append_dropWhile, closeDialogue]

section Keeps

variable {α : Type} (view : Draft → α)
  (keeps : ∀ (closing : Draft) (branch : OpenNode) (outer : List OpenNode),
    view ({ closing with branches := outer }.completeBranch branch) = view closing)

include keeps

/-- What completing one branch leaves as it is, closing branches leaves as it is. -/
theorem keeps_of_closes (closes : draft.Closes after) : view after = view draft := by
  induction closes with
  | refl => rfl
  | close _ _ ih => exact (keeps _ _ _).trans ih

theorem closeDeepBranches_keeps (draft : Draft) (indent : Nat) :
    view (draft.closeDeepBranches indent) = view draft :=
  keeps_of_closes view keeps (draft.closes_closeDeepBranches indent)

theorem closeBranchAt_keeps (draft : Draft) (indent : Nat) :
    view (draft.closeBranchAt indent) = view draft :=
  keeps_of_closes view keeps (draft.closes_closeBranchAt indent)

theorem closeDialogue_keeps (draft : Draft) : view draft.closeDialogue = view draft :=
  keeps_of_closes view keeps draft.closes_closeDialogue

end Keeps

/-- Branches that are complete are closed without a trace. -/
theorem foldl_completeBranch_of_exhaustive {closed : List OpenNode}
    (complete : ∀ branch ∈ closed, (draft.graph.branch branch.id).isExhaustive = true) :
    closed.foldl completeBranch draft = draft := by
  induction closed with
  | nil => rfl
  | cons branch rest ih =>
      have same : draft.completeBranch branch = draft := by
        rw [completeBranch, if_pos (complete branch List.mem_cons_self)]
      rw [List.foldl_cons, same]
      exact ih fun other member => complete other (List.mem_cons_of_mem _ member)

theorem latest_completeBranch_of_line (line : draft.latest = .line) (branch : OpenNode) :
    (draft.completeBranch branch).latest = .line := by
  unfold completeBranch
  split
  · exact line
  · rfl

/-- Once an incomplete branch has been closed, a relay is what was made last. -/
theorem latest_foldl_completeBranch_of_line (closed : List OpenNode)
    (line : draft.latest = .line) : (closed.foldl completeBranch draft).latest = .line := by
  induction closed generalizing draft with
  | nil => exact line
  | cons branch rest ih => exact ih (latest_completeBranch_of_line line branch)

theorem latest_foldl_completeBranch_of_incomplete {closed : List OpenNode}
    (incomplete : ∃ branch ∈ closed, (draft.graph.branch branch.id).isExhaustive = false) :
    (closed.foldl completeBranch draft).latest = .line := by
  induction closed with
  | nil =>
      obtain ⟨_, member, _⟩ := incomplete
      cases member
  | cons branch rest ih =>
      rw [List.foldl_cons]
      by_cases complete : (draft.graph.branch branch.id).isExhaustive = true
      · have same : draft.completeBranch branch = draft := by
          rw [completeBranch, if_pos complete]
        obtain ⟨other, member, lacking⟩ := incomplete
        rw [same]
        rcases List.mem_cons.mp member with rfl | member
        · rw [complete] at lacking
          cases lacking
        · exact ih ⟨other, member, lacking⟩
      · apply latest_foldl_completeBranch_of_line
        rw [completeBranch, if_neg complete]
        rfl

/-- The branches deeper than an indentation are complete. -/
def CompleteBelow (draft : Draft) (indent : Nat) : Prop :=
  ∀ branch ∈ draft.branches.takeWhile (fun branch => indent < branch.indent),
    (draft.graph.branch branch.id).isExhaustive = true

theorem closeDeepBranches_of_completeBelow {indent : Nat} (complete : draft.CompleteBelow indent) :
    draft.closeDeepBranches indent =
      { draft with branches := draft.branches.dropWhile fun branch => indent < branch.indent } :=
  foldl_completeBranch_of_exhaustive complete

theorem latest_closeDeepBranches_of_not_completeBelow {indent : Nat}
    (incomplete : ¬ draft.CompleteBelow indent) :
    (draft.closeDeepBranches indent).latest = .line := by
  apply latest_foldl_completeBranch_of_incomplete
  simpa [CompleteBelow] using incomplete

/-- A choice is still what was made last exactly if no incomplete branch has been closed
since. -/
theorem latest_closeDeepBranches_eq_choice_iff {indent : Nat} :
    (draft.closeDeepBranches indent).latest = .choice ↔
      draft.latest = .choice ∧ draft.CompleteBelow indent := by
  by_cases complete : draft.CompleteBelow indent
  · rw [closeDeepBranches_of_completeBelow complete]
    simp [complete]
  · rw [latest_closeDeepBranches_of_not_completeBelow complete]
    simp [complete]

/-- Closing deep branches closes no choice but deep ones. -/
theorem dropWhile_choices_foldl_completeBranch (draft : Draft) {closed : List OpenNode}
    {indent : Nat} (deep : ∀ branch ∈ closed, indent ≤ branch.indent) :
    ((closed.foldl completeBranch draft).choices.dropWhile fun choice => indent ≤ choice.indent) =
      draft.choices.dropWhile fun choice => indent ≤ choice.indent := by
  induction closed generalizing draft with
  | nil => rfl
  | cons branch rest ih =>
      rw [List.foldl_cons, ih _ fun other member => deep other (List.mem_cons_of_mem _ member)]
      unfold completeBranch
      split
      · rfl
      · apply dropWhile_dropWhile_of_imp
        intro choice dropped
        have level := deep branch List.mem_cons_self
        simp only [decide_eq_true_eq] at dropped ⊢
        omega

@[simp]
theorem dropWhile_choices_closeDeepBranches (draft : Draft) (indent : Nat) :
    ((draft.closeDeepBranches indent).choices.dropWhile fun choice => indent ≤ choice.indent) =
      draft.choices.dropWhile fun choice => indent ≤ choice.indent := by
  apply dropWhile_choices_foldl_completeBranch
  intro branch member
  have deeper := List.all_eq_true.mp List.all_takeWhile branch member
  simp only [decide_eq_true_eq] at deeper
  exact Nat.le_of_lt deeper

@[simp]
theorem dropWhile_choices_closeBranchAt (draft : Draft) (indent : Nat) :
    ((draft.closeBranchAt indent).choices.dropWhile fun choice => indent ≤ choice.indent) =
      draft.choices.dropWhile fun choice => indent ≤ choice.indent := by
  unfold closeBranchAt
  split
  · rename_i branch outer stack
    split
    · rename_i level
      have deep : ∀ other ∈ [branch], indent ≤ other.indent := by
        intro other member
        exact List.mem_singleton.mp member ▸ Nat.le_of_eq level.symm
      exact dropWhile_choices_foldl_completeBranch { draft with branches := outer } deep
    · rfl
  · rfl

/-! ## Placing a spoken line -/

theorem choices_settleChoice (draft : Draft) (indent : Nat) :
    (draft.settleChoice indent).choices = draft.choices := by
  unfold settleChoice
  split
  · split
    · split <;> rfl
    · rfl
  · rfl

theorem branches_settleChoice (draft : Draft) (indent : Nat) :
    (draft.settleChoice indent).branches = draft.branches := by
  unfold settleChoice
  split
  · split
    · split <;> rfl
    · rfl
  · rfl

/-- Attaching a spoken line opens and closes neither branches nor choices. -/
theorem stacks_attachSpeech {title : String} {id : LineIndex} {indent : Nat}
    (attached : draft.attachSpeech title id indent = .ok after) :
    after.branches = draft.branches ∧ after.choices = draft.choices ∧
      after.title = draft.title ∧ after.declared = draft.declared := by
  unfold attachSpeech at attached
  split at attached
  · cases attached
    exact ⟨rfl, rfl, rfl, rfl⟩
  · cases attached
    exact ⟨rfl, rfl, rfl, rfl⟩
  all_goals
    split at attached <;> cases attached
    all_goals exact ⟨rfl, rfl, rfl, rfl⟩

theorem stacks_directSpeech {id : LineIndex} {indent depth : Nat}
    (directed : draft.directSpeech id indent depth = .ok after) :
    after.branches = draft.branches ∧ after.choices = draft.choices ∧
      after.title = draft.title ∧ after.declared = draft.declared := by
  unfold directSpeech at directed
  split at directed
  · cases directed
    exact ⟨rfl, rfl, rfl, rfl⟩
  · split at directed <;> cases directed
    exact ⟨rfl, rfl, rfl, rfl⟩

theorem stacks_gatherStrays (draft : Draft) (id : LineIndex) (indent : Nat) :
    (draft.gatherStrays id indent).branches = draft.branches ∧
      (draft.gatherStrays id indent).choices = draft.choices ∧
      (draft.gatherStrays id indent).title = draft.title ∧
      (draft.gatherStrays id indent).declared = draft.declared := by
  unfold gatherStrays
  split <;> exact ⟨rfl, rfl, rfl, rfl⟩

/-- The innermost branch is closed if it stands at the indentation. -/
theorem branches_closeBranchAt (draft : Draft) (indent : Nat) :
    (draft.closeBranchAt indent).branches =
      match draft.branches with
      | branch :: outer => if branch.indent = indent then outer else branch :: outer
      | [] => [] := by
  rcases stack : draft.branches with _ | ⟨branch, outer⟩
  · simp only [closeBranchAt, stack]
  · simp only [closeBranchAt, stack]
    split
    · exact branches_completeBranch _ _
    · exact stack

/-! ## Steps -/

theorem stacks_of_stepOption (read : draft.stepOption scope statement = .ok after) :
    ∃ option, OptionLine.read statement.content = .ok option ∧
      after.branches = draft.branches ∧
      after.choices = (if option.terminal then []
          else [⟨draft.graph.choices.size, statement.indent⟩]) ++
        (if draft.latest = .choice then draft.choices.drop 1 else draft.choices).dropWhile
          (fun choice => statement.indent ≤ choice.indent) ∧
      after.latest = if option.terminal then draft.latest else .choice := by
  obtain ⟨option, commands, conditions, root, readOption, -, -, -, rfl⟩ :=
    stepOption_eq_ok_iff.mp read
  refine ⟨option, readOption, ?_⟩
  have settled : ∀ added : Draft, added.finishBodiless.branches = added.branches ∧
      added.finishBodiless.choices =
        (if added.latest = .choice then added.choices.drop 1 else added.choices) ∧
      added.finishBodiless.latest = added.latest := by
    intro added
    unfold finishBodiless
    split
    · split
      · rename_i stack
        rw [stack]
        exact ⟨rfl, rfl, rfl⟩
      · rename_i stack
        rw [stack]
        exact ⟨rfl, rfl, rfl⟩
    · exact ⟨rfl, rfl, rfl⟩
  obtain ⟨branches, choices, latest⟩ := settled
    ((draft.abandonDeepLines statement.indent).addChoiceUnder
      (Choice.fresh option.text conditions commands root))
  unfold offer
  split
  · exact ⟨branches, congrArg (List.dropWhile _) choices, latest⟩
  · exact ⟨branches, congrArg (fun rest => _ :: List.dropWhile _ rest) choices, rfl⟩

theorem stacks_of_stepIfArm (read : draft.stepIfArm scope statement = .ok after) :
    after.branches = ⟨draft.graph.branches.size, statement.indent⟩ :: draft.branches ∧
      after.choices =
        draft.choices.dropWhile (fun choice => statement.indent ≤ choice.indent) ∧
      after.latest = .branch := by
  obtain ⟨title, source, conditions, -, -, -, -, rfl⟩ := stepIfArm_eq_ok_iff.mp read
  have attached : ∀ (added : Draft) (branch : BranchIndex),
      (added.attachBranch title branch).branches = added.branches ∧
        (added.attachBranch title branch).choices = added.choices := by
    intro added branch
    unfold attachBranch
    split
    · exact ⟨rfl, rfl⟩
    all_goals split <;> exact ⟨rfl, rfl⟩
  obtain ⟨branches, choices⟩ := attached { draft with
    graph := draft.graph.addBranch ⟨[⟨conditions, none⟩]⟩
    branches := ⟨draft.graph.branches.size, statement.indent⟩ :: draft.branches }
    draft.graph.branches.size
  exact ⟨branches, congrArg (List.dropWhile _) choices, rfl⟩

theorem stacks_of_stepElseArm (read : draft.stepElseArm scope statement = .ok after) :
    after.branches = draft.branches ∧
      after.choices =
        draft.choices.dropWhile (fun choice => statement.indent ≤ choice.indent) ∧
      after.latest = .branch := by
  obtain ⟨source, branch, conditions, -, -, -, -, rfl⟩ := stepElseArm_eq_ok_iff.mp read
  exact ⟨rfl, rfl, rfl⟩

theorem stacks_of_stepSpeech (read : draft.stepSpeech scope statement = .ok after) :
    after.branches = (draft.closeBranchAt statement.indent).branches ∧
      after.choices =
        draft.choices.dropWhile (fun choice => statement.indent ≤ choice.indent) ∧
      after.latest = .line := by
  obtain ⟨title, speech, commands, attached, directed, -, -, -, -, attach, direct, rfl⟩ :=
    stepSpeech_eq_ok_iff.mp read
  obtain ⟨attachBranches, attachChoices, -, -⟩ := stacks_attachSpeech attach
  obtain ⟨directBranches, directChoices, -, -⟩ := stacks_directSpeech direct
  obtain ⟨gatherBranches, gatherChoices, -, -⟩ := directed.stacks_gatherStrays
    (draft.makeRoom statement.indent).graph.lines.size statement.indent
  have roomBranches : (draft.makeRoom statement.indent).branches =
      (draft.closeBranchAt statement.indent).branches := by
    rw [makeRoom, branches_closeBranchAt, branches_closeBranchAt, branches_settleChoice]
  refine ⟨?_, ?_, rfl⟩
  · show (directed.gatherStrays _ _).branches = _
    rw [gatherBranches, directBranches]
    exact attachBranches.trans roomBranches
  · show (directed.gatherStrays _ _).choices = _
    rw [gatherChoices, directChoices]
    show attached.choices.dropWhile _ = _
    rw [attachChoices]
    show (draft.makeRoom statement.indent).choices.dropWhile _ = _
    rw [makeRoom, dropWhile_choices_closeBranchAt, choices_settleChoice]

/-! ## Open lines -/

/-- Closing branches only puts relays on top of the open lines, and only deep ones. -/
theorem exists_lines_foldl_completeBranch (draft : Draft) {closed : List OpenNode} {indent : Nat}
    (deep : ∀ branch ∈ closed, indent < branch.indent) :
    ∃ relays, (closed.foldl completeBranch draft).lines = relays ++ draft.lines ∧
      ∀ relay ∈ relays, indent + 1 < relay.indent ∧ draft.graph.lines.size ≤ relay.id := by
  induction closed generalizing draft with
  | nil => exact ⟨[], rfl, fun _ member => by cases member⟩
  | cons branch rest ih =>
      have deepRest := fun other member => deep other (List.mem_cons_of_mem branch member)
      by_cases complete : (draft.graph.branch branch.id).isExhaustive = true
      · have same : draft.completeBranch branch = draft := by
          rw [completeBranch, if_pos complete]
        rw [List.foldl_cons, same]
        exact ih draft deepRest
      · have added : draft.completeBranch branch = draft.addDefaultArm branch := by
          rw [completeBranch, if_neg complete]
        obtain ⟨relays, lines, fresh⟩ := ih (draft.addDefaultArm branch) deepRest
        have size : (draft.addDefaultArm branch).graph.lines.size = draft.graph.lines.size + 1 :=
          draft.graph.size_lines_addLine Line.relay
        refine ⟨relays ++ [⟨draft.graph.lines.size, branch.indent + 1⟩], ?_, ?_⟩
        · rw [List.foldl_cons, added, lines, List.append_assoc]
          rfl
        · intro relay member
          rcases List.mem_append.mp member with later | first
          · obtain ⟨deeper, known⟩ := fresh relay later
            rw [size] at known
            exact ⟨deeper, Nat.le_of_succ_le known⟩
          · rw [List.mem_singleton.mp first]
            exact ⟨Nat.succ_lt_succ (deep branch List.mem_cons_self), Nat.le_refl _⟩

theorem exists_lines_closeDeepBranches (draft : Draft) (indent : Nat) :
    ∃ relays, (draft.closeDeepBranches indent).lines = relays ++ draft.lines ∧
      ∀ relay ∈ relays, indent + 1 < relay.indent ∧ draft.graph.lines.size ≤ relay.id := by
  apply exists_lines_foldl_completeBranch
  intro branch member
  have deeper := List.all_eq_true.mp List.all_takeWhile branch member
  simpa using deeper

/-- The relays of deep branches are dropped with the deep lines. -/
@[simp]
theorem dropWhile_lines_closeDeepBranches (draft : Draft) (indent : Nat) :
    ((draft.closeDeepBranches indent).lines.dropWhile fun line => indent < line.indent) =
      draft.lines.dropWhile fun line => indent < line.indent := by
  obtain ⟨relays, lines, deep⟩ := draft.exists_lines_closeDeepBranches indent
  rw [lines]
  apply List.dropWhile_append_of_pos
  intro relay member
  simpa using Nat.lt_of_succ_lt (deep relay member).1

/-- Offering a choice opens and closes no line. -/
theorem lines_offer (draft : Draft) (offered : Choice) (terminal : Bool) (indent : Nat) :
    (draft.offer offered terminal indent).lines = draft.lines := by
  have ended : ∀ added : Draft, added.finishBodiless.lines = added.lines := by
    intro added
    unfold finishBodiless
    split
    · split <;> rfl
    · rfl
  unfold offer
  split <;> exact ended (draft.addChoiceUnder offered)

theorem lines_attachBranch (draft : Draft) (title : String) (branch : BranchIndex) :
    (draft.attachBranch title branch).lines = draft.lines := by
  unfold attachBranch
  split
  · rfl
  all_goals split <;> rfl

/-- A statement that says nothing leaves the lines open that are no deeper than itself. -/
theorem lines_of_step_silent (silent : statement.construct ≠ .speech)
    (stays : statement.construct ≠ .dialogue) (read : draft.step scope statement = .ok after) :
    after.lines = draft.lines.dropWhile fun line => statement.indent < line.indent := by
  rw [← dropWhile_lines_closeDeepBranches]
  unfold step at read
  split at read
  · rename_i construct
    exact absurd construct stays
  · obtain ⟨option, commands, conditions, root, -, -, -, -, rfl⟩ := stepOption_eq_ok_iff.mp read
    rw [lines_offer]
    rfl
  · obtain ⟨title, source, conditions, -, -, -, -, rfl⟩ := stepIfArm_eq_ok_iff.mp read
    exact congrArg (List.dropWhile _) (lines_attachBranch { draft.closeDeepBranches _ with
      graph := (draft.closeDeepBranches statement.indent).graph.addBranch ⟨[⟨conditions, none⟩]⟩
      branches := _ :: (draft.closeDeepBranches statement.indent).branches } title _)
  · obtain ⟨source, branch, conditions, -, -, -, -, rfl⟩ := stepElseArm_eq_ok_iff.mp read
    rfl
  · rename_i construct
    exact absurd construct silent

/-- A spoken line is opened above those that it leaves open, unless it has return markers. -/
theorem lines_of_stepSpeech (read : draft.stepSpeech scope statement = .ok after) :
    ∃ speech, Speech.read statement.content = .ok speech ∧
      after.lines = (if speech.returnDepth = 0 then
          [⟨(draft.makeRoom statement.indent).graph.lines.size, statement.indent⟩] else []) ++
        ((draft.makeRoom statement.indent).release statement.indent).lines.dropWhile
          fun line => statement.indent < line.indent := by
  obtain ⟨title, speech, commands, attached, directed, -, -, readSpeech, -, attach, direct, rfl⟩ :=
    stepSpeech_eq_ok_iff.mp read
  obtain ⟨-, attachLines, -, -⟩ := linked_attachSpeech attach
  obtain ⟨directLines, -, -, -, -, -⟩ := directSpeech_eq_ok direct
  obtain ⟨-, gatherLines, -⟩ := linked_gatherStrays directed
    (draft.makeRoom statement.indent).graph.lines.size statement.indent
  refine ⟨speech, readSpeech, ?_⟩
  show (directed.gatherStrays _ _).lines = _
  rw [gatherLines, directLines]
  show _ ++ attached.lines.dropWhile _ = _
  rw [attachLines]
  rfl

end Draft

end Parley
