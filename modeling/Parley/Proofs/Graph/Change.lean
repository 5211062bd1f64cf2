import Parley.Graph

/-!
# What a change of a graph leaves alone

Every change of a graph concerns nodes of one kind.  The lemmas here give the
nodes of a graph after a change in terms of the nodes before it, so that nothing
later has to look into the arrays that hold them.
-/

namespace Parley

namespace Branch

/-- A branch is exhaustive exactly if one of its arms asks for nothing. -/
theorem isExhaustive_iff (branch : Branch) :
    branch.isExhaustive = true ↔ ∃ arm ∈ branch.arms, arm.conditions = [] := by
  simp [isExhaustive, Arm.isUnconditional]

@[simp]
theorem arms_addArm (branch : Branch) (conditions : List Call) (body : Option LineIndex) :
    (branch.addArm conditions body).arms = branch.arms ++ [⟨conditions, body⟩] :=
  rfl

/-- Giving the last arm a body changes no conditions. -/
theorem conditions_setLastBody (branch : Branch) (body : LineIndex) :
    (branch.setLastBody body).arms.map Arm.conditions = branch.arms.map Arm.conditions := by
  unfold setLastBody
  split
  · rename_i arm last
    obtain ⟨earlier, arms_eq⟩ := List.getLast?_eq_some_iff.mp last
    simp [arms_eq]
  · rfl

end Branch

namespace Graph

variable (graph : Graph)

/-! ## Sizes -/

@[simp]
theorem size_lines_addLine (line : Line) :
    (graph.addLine line).lines.size = graph.lines.size + 1 := by
  simp [addLine]

@[simp]
theorem size_lines_modifyLine (id : LineIndex) (change : Line → Line) :
    (graph.modifyLine id change).lines.size = graph.lines.size := by
  simp [modifyLine]

@[simp]
theorem size_lines_setNext (id next : LineIndex) :
    (graph.setNext id next).lines.size = graph.lines.size :=
  graph.size_lines_modifyLine id _

@[simp]
theorem size_branches_addBranch (branch : Branch) :
    (graph.addBranch branch).branches.size = graph.branches.size + 1 := by
  simp [addBranch]

@[simp]
theorem size_branches_modifyBranch (id : BranchIndex) (change : Branch → Branch) :
    (graph.modifyBranch id change).branches.size = graph.branches.size := by
  simp [modifyBranch]

@[simp]
theorem size_choices_modifyChoice (id : ChoiceIndex) (change : Choice → Choice) :
    (graph.modifyChoice id change).choices.size = graph.choices.size := by
  simp [modifyChoice]

@[simp]
theorem size_choices_addChoice (choice : Choice) :
    (graph.addChoice choice).choices.size = graph.choices.size + 1 := by
  simp [addChoice]

/-! ## Nodes of the other kinds -/

@[simp]
theorem branches_addLine (line : Line) : (graph.addLine line).branches = graph.branches :=
  rfl

@[simp]
theorem branches_modifyChoice (id : ChoiceIndex) (change : Choice → Choice) :
    (graph.modifyChoice id change).branches = graph.branches :=
  rfl

/-- Successors are no matter of the branches. -/
theorem branches_foldl_setNext {α : Type} (place : α → LineIndex) (changed : List α)
    (next : LineIndex) :
    (changed.foldl (fun graph item => graph.setNext (place item) next) graph).branches =
      graph.branches := by
  induction changed generalizing graph with
  | nil => rfl
  | cons item rest ih => exact ih (graph.setNext (place item) next)

/-- Successors of lines are no matter of the choices. -/
theorem choices_foldl_setNext {α : Type} (place : α → LineIndex) (changed : List α)
    (next : LineIndex) :
    (changed.foldl (fun graph item => graph.setNext (place item) next) graph).choices =
      graph.choices := by
  induction changed generalizing graph with
  | nil => rfl
  | cons item rest ih => exact ih (graph.setNext (place item) next)

/-- A look-up of a line reads nothing but the lines. -/
theorem line_congr {first second : Graph} (same : first.lines = second.lines) (id : LineIndex) :
    first.line id = second.line id := by
  simp [line, same]

/-- A look-up of a branch reads nothing but the branches. -/
theorem branch_congr {first second : Graph} (same : first.branches = second.branches)
    (id : BranchIndex) : first.branch id = second.branch id := by
  simp [branch, same]

/-- A look-up of a choice reads nothing but the choices. -/
theorem choice_congr {first second : Graph} (same : first.choices = second.choices)
    (id : ChoiceIndex) : first.choice id = second.choice id := by
  simp [choice, same]

/-! ## Nodes of the same kind -/

theorem line_addLine (line : Line) (id : LineIndex) :
    (graph.addLine line).line id = if id = graph.lines.size then line else graph.line id := by
  simp only [addLine, Graph.line, Array.getD_eq_getD_getElem?, Array.getElem?_push]
  split <;> rfl

theorem line_modifyLine_eq (changed id : LineIndex) (change : Line → Line) :
    (graph.modifyLine changed change).line id =
      if changed = id ∧ id < graph.lines.size then change (graph.line id) else graph.line id := by
  by_cases known : id < graph.lines.size
  · rw [line_modifyLine graph changed id change known]
    simp [known]
  · simp only [modifyLine, Graph.line, Array.getD_eq_getD_getElem?, Array.getElem?_modify]
    split <;> simp [known]

theorem branch_addBranch (branch : Branch) (id : BranchIndex) :
    (graph.addBranch branch).branch id =
      if id = graph.branches.size then branch else graph.branch id := by
  simp only [addBranch, Graph.branch, Array.getD_eq_getD_getElem?, Array.getElem?_push]
  split <;> rfl

theorem branch_modifyBranch_eq (changed id : BranchIndex) (change : Branch → Branch) :
    (graph.modifyBranch changed change).branch id =
      if changed = id ∧ id < graph.branches.size then change (graph.branch id)
      else graph.branch id := by
  by_cases known : id < graph.branches.size
  · simp only [modifyBranch, Graph.branch, Array.getD_eq_getD_getElem?, Array.getElem?_modify]
    split <;> simp [*]
  · simp only [modifyBranch, Graph.branch, Array.getD_eq_getD_getElem?, Array.getElem?_modify]
    split <;> simp [known]

theorem choice_addChoice (choice : Choice) (id : ChoiceIndex) :
    (graph.addChoice choice).choice id =
      if id = graph.choices.size then choice else graph.choice id := by
  simp only [addChoice, Graph.choice, Array.getD_eq_getD_getElem?, Array.getElem?_push]
  split <;> rfl

theorem choice_modifyChoice_eq (changed id : ChoiceIndex) (change : Choice → Choice) :
    (graph.modifyChoice changed change).choice id =
      if changed = id ∧ id < graph.choices.size then change (graph.choice id)
      else graph.choice id := by
  by_cases known : id < graph.choices.size
  · simp only [modifyChoice, Graph.choice, Array.getD_eq_getD_getElem?, Array.getElem?_modify]
    split <;> simp [*]
  · simp only [modifyChoice, Graph.choice, Array.getD_eq_getD_getElem?, Array.getElem?_modify]
    split <;> simp [known]

/-- Where no line is, there is a relay that leads nowhere. -/
theorem line_eq_relay {id : LineIndex} (unknown : graph.lines.size ≤ id) :
    graph.line id = Line.relay := by
  simp [Graph.line, Array.getD_eq_getD_getElem?, unknown]

/-- Where no branch is, there is one without arms. -/
theorem branch_eq_armless {id : BranchIndex} (unknown : graph.branches.size ≤ id) :
    graph.branch id = ⟨[]⟩ := by
  simp [Graph.branch, Array.getD_eq_getD_getElem?, unknown]

/-- Where no choice is, there is one that leads nowhere. -/
theorem choice_eq_fresh {id : ChoiceIndex} (unknown : graph.choices.size ≤ id) :
    graph.choice id = Choice.fresh "" [] [] 0 := by
  simp [Graph.choice, Array.getD_eq_getD_getElem?, unknown]

/-- A change that touches no root touches none in the graph either. -/
theorem root_modifyChoice_of_keeps {change : Choice → Choice}
    (keeps : ∀ choice, (change choice).root = choice.root) (changed id : ChoiceIndex) :
    ((graph.modifyChoice changed change).choice id).root = (graph.choice id).root := by
  rw [choice_modifyChoice_eq]
  split
  · exact keeps _
  · rfl

/-! ## Successors -/

/-- A change that touches no successor touches none in the graph either. -/
theorem next_modifyLine_of_keeps {change : Line → Line}
    (keeps : ∀ line, (change line).next = line.next) (changed id : LineIndex) :
    ((graph.modifyLine changed change).line id).next = (graph.line id).next := by
  rw [line_modifyLine_eq]
  split
  · exact keeps _
  · rfl

theorem next_setNext (changed next id : LineIndex) :
    ((graph.setNext changed next).line id).next =
      if changed = id ∧ id < graph.lines.size then some next else (graph.line id).next := by
  rw [setNext, line_modifyLine_eq]
  split <;> rfl

end Graph

end Parley
