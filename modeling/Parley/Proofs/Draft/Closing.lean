import Parley.Proofs.Draft.Inversion
import Parley.Proofs.Graph.Change

/-!
# Closing branches one at a time

Several branches may be closed by one statement.  Whatever survives closing the
innermost branch survives closing any number of them, and closing touches nothing
of a draft but its graph, its waiting lines, its choices and what was made last.
-/

namespace Parley.Draft

variable (draft : Draft)

@[simp]
theorem branches_completeBranch (branch : OpenNode) :
    (draft.completeBranch branch).branches = draft.branches := by
  unfold completeBranch
  split <;> rfl

/-- Completing a branch does not look at the stack of branches. -/
theorem completeBranch_with_branches (branch : OpenNode) (stack : List OpenNode) :
    { draft with branches := stack }.completeBranch branch =
      { draft.completeBranch branch with branches := stack } := by
  simp only [completeBranch]
  split <;> rfl

/-- Closing branches from the innermost outward keeps what closing one keeps. -/
theorem foldl_completeBranch_induction {property : Draft → Prop}
    (close : ∀ (draft : Draft) branch outer, draft.branches = branch :: outer → property draft →
      property ({ draft with branches := outer }.completeBranch branch))
    (closed rest : List OpenNode) (stack : draft.branches = closed ++ rest)
    (holds : property draft) :
    property (closed.foldl completeBranch { draft with branches := rest }) := by
  induction closed generalizing draft with
  | nil =>
      have same : { draft with branches := rest } = draft := by
        obtain ⟨graph, declared, title, latest, lines, strays, choices, branches⟩ := draft
        subst stack
        rfl
      exact same ▸ holds
  | cons branch closed ih =>
      have closedOne := close draft branch (closed ++ rest) stack holds
      have popped : ({ draft with branches := closed ++ rest }.completeBranch branch).branches =
          closed ++ rest := by
        simp
      have closedRest := ih _ popped closedOne
      rw [completeBranch_with_branches] at closedRest
      rw [List.foldl_cons, completeBranch_with_branches]
      exact closedRest

theorem closeDeepBranches_induction {property : Draft → Prop}
    (close : ∀ (draft : Draft) branch outer, draft.branches = branch :: outer → property draft →
      property ({ draft with branches := outer }.completeBranch branch))
    (indent : Nat) (holds : property draft) : property (draft.closeDeepBranches indent) :=
  draft.foldl_completeBranch_induction close _ _ List.takeWhile_append_dropWhile.symm holds

theorem closeDialogue_induction {property : Draft → Prop}
    (close : ∀ (draft : Draft) branch outer, draft.branches = branch :: outer → property draft →
      property ({ draft with branches := outer }.completeBranch branch))
    (holds : property draft) : property draft.closeDialogue :=
  draft.foldl_completeBranch_induction close _ [] (List.append_nil _).symm holds

theorem closeBranchAt_induction {property : Draft → Prop}
    (close : ∀ (draft : Draft) branch outer, draft.branches = branch :: outer → property draft →
      property ({ draft with branches := outer }.completeBranch branch))
    (indent : Nat) (holds : property draft) : property (draft.closeBranchAt indent) := by
  unfold closeBranchAt
  split
  · rename_i branch outer stack
    split
    · exact close draft branch outer stack holds
    · exact holds
  · exact holds

/-- A draft in which some branches have been closed, from the innermost outward. -/
inductive Closes (draft : Draft) : Draft → Prop where
  | refl : Closes draft draft
  | close {closing : Draft} {branch : OpenNode} {outer : List OpenNode}
      (closes : Closes draft closing) (stack : closing.branches = branch :: outer) :
      Closes draft ({ closing with branches := outer }.completeBranch branch)

theorem closes_closeDeepBranches (indent : Nat) : draft.Closes (draft.closeDeepBranches indent) :=
  draft.closeDeepBranches_induction (fun _ _ _ stack held => held.close stack) indent .refl

theorem closes_closeBranchAt (indent : Nat) : draft.Closes (draft.closeBranchAt indent) :=
  draft.closeBranchAt_induction (fun _ _ _ stack held => held.close stack) indent .refl

theorem closes_closeDialogue : draft.Closes draft.closeDialogue :=
  draft.closeDialogue_induction (fun _ _ _ stack held => held.close stack) .refl

@[simp]
theorem size_branches_addDefaultArm (branch : OpenNode) :
    (draft.addDefaultArm branch).graph.branches.size = draft.graph.branches.size := by
  simp [addDefaultArm, leaveChoices]

/-- The default arm is added to the branch that is closed and to no other. -/
theorem branch_addDefaultArm (branch : OpenNode) (id : BranchIndex) :
    (draft.addDefaultArm branch).graph.branch id =
      if branch.id = id ∧ id < draft.graph.branches.size then
        (draft.graph.branch id).addArm [] (some draft.graph.lines.size)
      else draft.graph.branch id :=
  (draft.graph.addLine Line.relay).branch_modifyBranch_eq branch.id id _

/-- Where a dialogue is closed, no branch is open. -/
@[simp]
theorem branches_closeDialogue : draft.closeDialogue.branches = [] := by
  have empty : ∀ (closed : List OpenNode) (draft : Draft), draft.branches = [] →
      (closed.foldl completeBranch draft).branches = [] := by
    intro closed
    induction closed with
    | nil => exact fun _ none => none
    | cons branch closed ih => exact fun draft none => ih _ (by simpa using none)
  exact empty _ _ rfl

end Parley.Draft
