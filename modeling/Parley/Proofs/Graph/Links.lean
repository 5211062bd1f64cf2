import Parley.Proofs.Graph.Change

/-!
# Where links lead

A line leads on to its successor, and it leads into the bodies that begin under it: those
of the arms of its branch, and those of the choices that it offers.  A graph grows forward
if every link that it gets leads to a later line.
-/

namespace Parley

/-- One of the arms has this body. -/
def Branch.LeadsTo (branch : Branch) (target : LineIndex) : Prop :=
  ∃ arm ∈ branch.arms, arm.body = some target

/-- None of the arms has a body. -/
def Branch.IsBodiless (branch : Branch) : Prop :=
  ∀ target, ¬ branch.LeadsTo target

namespace Graph

/-- A body that begins under a line. -/
inductive LeadsInto (graph : Graph) (id : LineIndex) : LineIndex → Prop where
  | arm {branch : BranchIndex} {target : LineIndex}
      (branched : (graph.line id).branch = some branch)
      (leads : (graph.branch branch).LeadsTo target) : LeadsInto graph id target
  | choice {choice : ChoiceIndex} {target : LineIndex}
      (offered : choice ∈ (graph.line id).choices)
      (leads : (graph.choice choice).next = some target) : LeadsInto graph id target
  | choiceArm {choice : ChoiceIndex} {branch : BranchIndex} {target : LineIndex}
      (offered : choice ∈ (graph.line id).choices)
      (branched : (graph.choice choice).branch = some branch)
      (leads : (graph.branch branch).LeadsTo target) : LeadsInto graph id target

/-- The last line of the graph, under which nothing begins. -/
structure IsNewest (graph : Graph) (id : LineIndex) : Prop where
  last : id + 1 = graph.lines.size
  unbranched : (graph.line id).branch = none
  choiceless : (graph.line id).choices = []

/-- A graph has got lines, and links that lead to later lines; the successors of some lines
are excused. -/
structure Grows (excused : LineIndex → Prop) (before after : Graph) : Prop where
  size : before.lines.size ≤ after.lines.size
  next : ∀ {id target}, (after.line id).next = some target →
    (before.line id).next = some target ∨ (id < target ∧ target < after.lines.size) ∨ excused id
  into : ∀ {id target}, after.LeadsInto id target →
    before.LeadsInto id target ∨ (id < target ∧ target < after.lines.size)

/-- Every link leads to a later line of the graph; the successors of some lines are excused. -/
structure Forward (excused : LineIndex → Prop) (graph : Graph) : Prop where
  next : ∀ id target, (graph.line id).next = some target →
    (id < target ∧ target < graph.lines.size) ∨ excused id
  into : ∀ id target, graph.LeadsInto id target → id < target ∧ target < graph.lines.size

variable {graph before middle after : Graph} {excused : LineIndex → Prop} {id target : LineIndex}
  {branch : BranchIndex} {choice : ChoiceIndex}

/-- A line that has a branch is there. -/
theorem lt_of_branch_line (branched : (graph.line id).branch = some branch) :
    id < graph.lines.size := by
  by_cases known : id < graph.lines.size
  · exact known
  · rw [line_eq_relay _ (Nat.le_of_not_lt known)] at branched
    cases branched

/-- A line that has a successor is there. -/
theorem lt_of_next_line (linked : (graph.line id).next = some target) :
    id < graph.lines.size := by
  by_cases known : id < graph.lines.size
  · exact known
  · rw [line_eq_relay _ (Nat.le_of_not_lt known)] at linked
    cases linked

/-- A line that offers a choice is there. -/
theorem lt_of_mem_choices (offered : choice ∈ (graph.line id).choices) :
    id < graph.lines.size := by
  by_cases known : id < graph.lines.size
  · exact known
  · rw [line_eq_relay _ (Nat.le_of_not_lt known)] at offered
    cases offered

namespace IsNewest

theorem lt_size (newest : graph.IsNewest target) : target < graph.lines.size :=
  newest.last ▸ Nat.lt_succ_self target

/-- A line that has a branch comes before the newest line. -/
theorem lt_of_branch (newest : graph.IsNewest target)
    (branched : (graph.line id).branch = some branch) : id < target := by
  have known := lt_of_branch_line branched
  rw [← newest.last] at known
  apply Nat.lt_of_le_of_ne (Nat.le_of_lt_succ known)
  rintro rfl
  rw [newest.unbranched] at branched
  cases branched

/-- A line that offers choices comes before the newest line. -/
theorem lt_of_choice (newest : graph.IsNewest target)
    (offered : choice ∈ (graph.line id).choices) : id < target := by
  have known := lt_of_mem_choices offered
  rw [← newest.last] at known
  apply Nat.lt_of_le_of_ne (Nat.le_of_lt_succ known)
  rintro rfl
  rw [newest.choiceless] at offered
  cases offered

/-- A line that has just been added without links is the newest. -/
theorem addLine {line : Line} (unbranched : line.branch = none) (choiceless : line.choices = []) :
    (graph.addLine line).IsNewest graph.lines.size where
  last := (graph.size_lines_addLine line).symm
  unbranched := by rw [graph.line_addLine_size, unbranched]
  choiceless := by rw [graph.line_addLine_size, choiceless]

end IsNewest

namespace Grows

theorem refl (excused : LineIndex → Prop) (graph : Graph) : Grows excused graph graph :=
  ⟨Nat.le_refl _, Or.inl, Or.inl⟩

theorem trans (first : Grows excused before middle) (second : Grows excused middle after) :
    Grows excused before after where
  size := Nat.le_trans first.size second.size
  next linked := by
    rcases second.next linked with earlier | new
    · rcases first.next earlier with old | ⟨forward, known⟩ | free
      · exact Or.inl old
      · exact Or.inr (Or.inl ⟨forward, Nat.lt_of_lt_of_le known second.size⟩)
      · exact Or.inr (Or.inr free)
    · exact Or.inr new
  into leads := by
    rcases second.into leads with earlier | new
    · rcases first.into earlier with old | ⟨forward, known⟩
      · exact Or.inl old
      · exact Or.inr ⟨forward, Nat.lt_of_lt_of_le known second.size⟩
    · exact Or.inr new

/-- More lines may be excused. -/
theorem mono {more : LineIndex → Prop} (grows : Grows excused before after)
    (weaker : ∀ id, excused id → more id) : Grows more before after where
  size := grows.size
  next linked := by
    rcases grows.next linked with old | forward | free
    · exact Or.inl old
    · exact Or.inr (Or.inl forward)
    · exact Or.inr (Or.inr (weaker _ free))
  into := grows.into

/-- An edit that leaves all nodes as they are. -/
theorem of_nodes_eq (lines : after.lines = before.lines)
    (branches : after.branches = before.branches) (choices : after.choices = before.choices) :
    Grows excused before after := by
  have same : ∀ id, after.line id = before.line id := line_congr lines
  refine ⟨Nat.le_of_eq (congrArg Array.size lines).symm, fun linked => ?_, fun leads => ?_⟩
  · exact Or.inl (same _ ▸ linked)
  · have leadsTo : ∀ {branch target}, (after.branch branch).LeadsTo target →
        (before.branch branch).LeadsTo target :=
      fun leads => branch_congr branches _ ▸ leads
    have choice : ∀ id, after.choice id = before.choice id := choice_congr choices
    left
    cases leads with
    | arm branched leads => exact .arm (same _ ▸ branched) (leadsTo leads)
    | choice offered leads => exact .choice (same _ ▸ offered) (choice _ ▸ leads)
    | choiceArm offered branched leads =>
        exact .choiceArm (same _ ▸ offered) (choice _ ▸ branched) (leadsTo leads)

/-- An edit of the lines alone that gives them no links but to branches without bodies and
choices that lead nowhere. -/
theorem of_lines (size : before.lines.size ≤ after.lines.size)
    (branches : after.branches = before.branches) (choices : after.choices = before.choices)
    (next : ∀ id target, (after.line id).next = some target →
      (before.line id).next = some target ∨ (id < target ∧ target < after.lines.size) ∨ excused id)
    (branched : ∀ id branch, (after.line id).branch = some branch →
      (before.line id).branch = some branch ∨ (before.branch branch).IsBodiless)
    (offered : ∀ id choice, choice ∈ (after.line id).choices →
      choice ∈ (before.line id).choices ∨
        (before.choice choice).next = none ∧ (before.choice choice).branch = none) :
    Grows excused before after := by
  have branchSame : ∀ id, after.branch id = before.branch id := branch_congr branches
  have choiceSame : ∀ id, after.choice id = before.choice id := choice_congr choices
  refine ⟨size, fun linked => next _ _ linked, fun leads => ?_⟩
  left
  cases leads with
  | arm owns leads =>
      rw [branchSame] at leads
      rcases branched _ _ owns with old | bodiless
      · exact .arm old leads
      · exact absurd leads (bodiless _)
  | choice offers leads =>
      rw [choiceSame] at leads
      rcases offered _ _ offers with old | ⟨nowhere, -⟩
      · exact .choice old leads
      · rw [nowhere] at leads
        cases leads
  | choiceArm offers owns leads =>
      rw [branchSame] at leads
      rw [choiceSame] at owns
      rcases offered _ _ offers with old | ⟨-, alone⟩
      · exact .choiceArm old owns leads
      · rw [alone] at owns
        cases owns

/-- A new line leads nowhere, but it may have a branch without bodies. -/
theorem addLine (graph : Graph) {line : Line} (unlinked : line.next = none)
    (bodiless : ∀ branch, line.branch = some branch → (graph.branch branch).IsBodiless)
    (choiceless : line.choices = []) : Grows excused graph (graph.addLine line) := by
  have lineAt : ∀ id, (graph.addLine line).line id = line ∨
      (graph.addLine line).line id = graph.line id := by
    intro id
    rw [line_addLine]
    split
    · exact Or.inl rfl
    · exact Or.inr rfl
  refine of_lines ?_ rfl rfl ?_ ?_ ?_
  · rw [size_lines_addLine]
    exact Nat.le_succ _
  · intro id target linked
    rcases lineAt id with new | old
    · rw [new, unlinked] at linked
      cases linked
    · exact Or.inl (old ▸ linked)
  · intro id branch owns
    rcases lineAt id with new | old
    · exact Or.inr (bodiless branch (new ▸ owns))
    · exact Or.inl (old ▸ owns)
  · intro id choice offers
    rcases lineAt id with new | old
    · rw [new, choiceless] at offers
      cases offers
    · exact Or.inl (old ▸ offers)

theorem addRelay (graph : Graph) : Grows excused graph (graph.addLine .relay) :=
  addLine graph rfl (fun _ branched => by cases branched) rfl

/-- A successor leads forward or is excused. -/
theorem setNext (graph : Graph) (allowed : (id < target ∧ target < graph.lines.size) ∨ excused id) :
    Grows excused graph (graph.setNext id target) := by
  have branch : ∀ other, ((graph.setNext id target).line other).branch =
      (graph.line other).branch := by
    intro other
    rw [Graph.setNext, line_modifyLine_eq]
    split <;> rfl
  have choices : ∀ other, ((graph.setNext id target).line other).choices =
      (graph.line other).choices := by
    intro other
    rw [Graph.setNext, line_modifyLine_eq]
    split <;> rfl
  refine of_lines ?_ rfl rfl ?_ ?_ ?_
  · exact Nat.le_of_eq (graph.size_lines_setNext _ _).symm
  · intro other later linked
    rw [next_setNext] at linked
    split at linked
    · rename_i changed
      cases linked
      rw [← changed.1, size_lines_setNext]
      exact Or.inr allowed
    · exact Or.inl linked
  · exact fun other branched owns => Or.inl (branch other ▸ owns)
  · exact fun other offered offers => Or.inl (choices other ▸ offers)

theorem foldl_setNext {α : Type} (place : α → LineIndex) (changed : List α) (graph : Graph)
    (known : target < graph.lines.size) (forward : ∀ item ∈ changed, place item < target) :
    Grows excused graph
      (changed.foldl (fun graph item => graph.setNext (place item) target) graph) := by
  induction changed generalizing graph with
  | nil => exact refl excused graph
  | cons item rest ih =>
      have first : Grows excused graph (graph.setNext (place item) target) :=
        setNext graph (Or.inl ⟨forward item List.mem_cons_self, known⟩)
      apply first.trans
      apply ih
      · rw [size_lines_setNext]
        exact known
      · exact fun other member => forward other (List.mem_cons_of_mem item member)

/-- A line may get a branch without bodies. -/
theorem modifyLine_branch (graph : Graph) (bodiless : (graph.branch branch).IsBodiless) :
    Grows excused graph
      (graph.modifyLine id fun line => { line with branch := some branch }) := by
  refine of_lines ?_ rfl rfl ?_ ?_ ?_
  · exact Nat.le_of_eq (graph.size_lines_modifyLine _ _).symm
  · intro other target linked
    rw [line_modifyLine_eq] at linked
    split at linked <;> exact Or.inl linked
  · intro other owned owns
    rw [line_modifyLine_eq] at owns
    split at owns
    · cases owns
      exact Or.inr bodiless
    · exact Or.inl owns
  · intro other choice offers
    rw [line_modifyLine_eq] at offers
    split at offers <;> exact Or.inl offers

/-- A line may offer a choice that leads nowhere yet. -/
theorem modifyLine_choices (graph : Graph) (unlinked : (graph.choice choice).next = none)
    (unbranched : (graph.choice choice).branch = none) :
    Grows excused graph
      (graph.modifyLine id fun line => { line with choices := line.choices ++ [choice] }) := by
  refine of_lines ?_ rfl rfl ?_ ?_ ?_
  · exact Nat.le_of_eq (graph.size_lines_modifyLine _ _).symm
  · intro other target linked
    rw [line_modifyLine_eq] at linked
    split at linked <;> exact Or.inl linked
  · intro other owned owns
    rw [line_modifyLine_eq] at owns
    split at owns <;> exact Or.inl owns
  · intro other offered offers
    rw [line_modifyLine_eq] at offers
    split at offers
    · rcases List.mem_append.mp offers with old | new
      · exact Or.inl old
      · exact Or.inr (List.mem_singleton.mp new ▸ ⟨unlinked, unbranched⟩)
    · exact Or.inl offers

/-- An edit of branches and choices alone, in which whatever is new leads to the newest line
or belongs to a branch without bodies. -/
theorem of_newest {newest : LineIndex} (isNewest : before.IsNewest newest)
    (lines : after.lines = before.lines)
    (branches : ∀ id target, (after.branch id).LeadsTo target →
      (before.branch id).LeadsTo target ∨ target = newest)
    (next : ∀ id target, (after.choice id).next = some target →
      (before.choice id).next = some target ∨ target = newest)
    (branch : ∀ id, (after.choice id).branch = (before.choice id).branch) :
    Grows excused before after := by
  have line : ∀ id, after.line id = before.line id := line_congr lines
  have size : after.lines.size = before.lines.size := congrArg Array.size lines
  refine ⟨Nat.le_of_eq size.symm, fun linked => Or.inl (line _ ▸ linked), fun leads => ?_⟩
  rw [size]
  cases leads with
  | arm owns leads =>
      rw [line] at owns
      rcases branches _ _ leads with old | rfl
      · exact Or.inl (.arm owns old)
      · exact Or.inr ⟨isNewest.lt_of_branch owns, isNewest.lt_size⟩
  | choice offers leads =>
      rw [line] at offers
      rcases next _ _ leads with old | rfl
      · exact Or.inl (.choice offers old)
      · exact Or.inr ⟨isNewest.lt_of_choice offers, isNewest.lt_size⟩
  | choiceArm offers owns leads =>
      rw [line] at offers
      rw [branch] at owns
      rcases branches _ _ leads with old | rfl
      · exact Or.inl (.choiceArm offers owns old)
      · exact Or.inr ⟨isNewest.lt_of_choice offers, isNewest.lt_size⟩

/-- A branch may get the newest line as a body. -/
theorem modifyBranch {newest : LineIndex} (isNewest : graph.IsNewest newest)
    {change : Branch → Branch}
    (leads : ∀ held target, (change held).LeadsTo target → held.LeadsTo target ∨ target = newest) :
    Grows excused graph (graph.modifyBranch branch change) := by
  refine of_newest isNewest rfl ?_ ?_ ?_
  · intro id target found
    rw [branch_modifyBranch_eq] at found
    split at found
    · exact leads _ _ found
    · exact Or.inl found
  · exact fun id target linked => Or.inl linked
  · exact fun id => rfl

/-- A branch may get an arm without a body. -/
theorem modifyBranch_bodiless (graph : Graph) {change : Branch → Branch}
    (leads : ∀ held target, (change held).LeadsTo target → held.LeadsTo target) :
    Grows excused graph (graph.modifyBranch branch change) := by
  have leadsTo : ∀ id target, ((graph.modifyBranch branch change).branch id).LeadsTo target →
      (graph.branch id).LeadsTo target := by
    intro id target found
    rw [branch_modifyBranch_eq] at found
    split at found
    · exact leads _ _ found
    · exact found
  refine ⟨Nat.le_refl _, Or.inl, fun found => Or.inl ?_⟩
  cases found with
  | arm owns found => exact .arm owns (leadsTo _ _ found)
  | choice offers found => exact .choice offers found
  | choiceArm offers owns found => exact .choiceArm offers owns (leadsTo _ _ found)

/-- A choice may lead to the newest line. -/
theorem modifyChoice_next {newest : LineIndex} (isNewest : graph.IsNewest newest) :
    Grows excused graph
      (graph.modifyChoice choice fun held => { held with next := some newest }) := by
  refine of_newest isNewest rfl ?_ ?_ ?_
  · exact fun id target found => Or.inl found
  · intro id target linked
    rw [choice_modifyChoice_eq] at linked
    split at linked
    · exact Or.inr (Option.some.inj linked).symm
    · exact Or.inl linked
  · intro id
    rw [choice_modifyChoice_eq]
    split <;> rfl

/-- A choice may get a branch without bodies. -/
theorem modifyChoice_branch (graph : Graph) (bodiless : (graph.branch branch).IsBodiless) :
    Grows excused graph
      (graph.modifyChoice choice fun held => { held with branch := some branch }) := by
  refine ⟨Nat.le_refl _, Or.inl, fun found => Or.inl ?_⟩
  cases found with
  | arm owns found => exact .arm owns found
  | choice offers found =>
      rw [choice_modifyChoice_eq] at found
      split at found <;> exact .choice offers found
  | choiceArm offers owns found =>
      rw [choice_modifyChoice_eq] at owns
      split at owns
      · cases owns
        exact absurd found (bodiless _)
      · exact .choiceArm offers owns found

/-- A new branch has no bodies. -/
theorem addBranch (graph : Graph) {added : Branch} (bodiless : added.IsBodiless) :
    Grows excused graph (graph.addBranch added) := by
  have leadsTo : ∀ id target, ((graph.addBranch added).branch id).LeadsTo target →
      (graph.branch id).LeadsTo target := by
    intro id target found
    rw [branch_addBranch] at found
    split at found
    · exact absurd found (bodiless _)
    · exact found
  refine ⟨Nat.le_refl _, Or.inl, fun found => Or.inl ?_⟩
  cases found with
  | arm owns found => exact .arm owns (leadsTo _ _ found)
  | choice offers found => exact .choice offers found
  | choiceArm offers owns found => exact .choiceArm offers owns (leadsTo _ _ found)

/-- A new choice leads nowhere. -/
theorem addChoice (graph : Graph) {added : Choice} (unlinked : added.next = none)
    (unbranched : added.branch = none) : Grows excused graph (graph.addChoice added) := by
  refine ⟨Nat.le_refl _, Or.inl, fun found => Or.inl ?_⟩
  cases found with
  | arm owns found => exact .arm owns found
  | choice offers found =>
      rw [choice_addChoice] at found
      split at found
      · rw [unlinked] at found
        cases found
      · exact .choice offers found
  | choiceArm offers owns found =>
      rw [choice_addChoice] at owns
      split at owns
      · rw [unbranched] at owns
        cases owns
      · exact .choiceArm offers owns found

/-- That a choice has been made is no link. -/
theorem modifyChoice_selected (graph : Graph) (selected : Bool) :
    Grows excused graph
      (graph.modifyChoice choice fun held => { held with selected := selected }) := by
  refine ⟨Nat.le_refl _, Or.inl, fun found => Or.inl ?_⟩
  cases found with
  | arm owns found => exact .arm owns found
  | choice offers found =>
      rw [choice_modifyChoice_eq] at found
      split at found <;> exact .choice offers found
  | choiceArm offers owns found =>
      rw [choice_modifyChoice_eq] at owns
      split at owns <;> exact .choiceArm offers owns found

end Grows

namespace Forward

theorem empty (excused : LineIndex → Prop) : Forward excused Graph.empty where
  next _ _ linked := by cases linked
  into _ _ leads := by
    cases leads with
    | arm branched _ => cases branched
    | choice offered _ => cases offered
    | choiceArm offered _ _ => cases offered

/-- A graph that has only grown forward still leads forward. -/
theorem grow (forward : Forward excused before) (grows : Grows excused before after) :
    Forward excused after where
  next id target linked := by
    rcases grows.next linked with old | new
    · rcases forward.next id target old with ⟨later, known⟩ | free
      · exact Or.inl ⟨later, Nat.lt_of_lt_of_le known grows.size⟩
      · exact Or.inr free
    · exact new
  into id target leads := by
    rcases grows.into leads with old | new
    · obtain ⟨later, known⟩ := forward.into id target old
      exact ⟨later, Nat.lt_of_lt_of_le known grows.size⟩
    · exact new

end Forward

end Graph

namespace Branch

/-- An arm without a body adds none. -/
theorem leadsTo_addArm_none {branch : Branch} {conditions : List Call} {target : LineIndex}
    (leads : (branch.addArm conditions none).LeadsTo target) : branch.LeadsTo target := by
  obtain ⟨arm, member, body⟩ := leads
  rcases List.mem_append.mp member with old | new
  · exact ⟨arm, old, body⟩
  · rw [List.mem_singleton.mp new] at body
    cases body

theorem leadsTo_addArm_some {branch : Branch} {conditions : List Call} {target newest : LineIndex}
    (leads : (branch.addArm conditions (some newest)).LeadsTo target) :
    branch.LeadsTo target ∨ target = newest := by
  obtain ⟨arm, member, body⟩ := leads
  rcases List.mem_append.mp member with old | new
  · exact Or.inl ⟨arm, old, body⟩
  · rw [List.mem_singleton.mp new] at body
    exact Or.inr (Option.some.inj body).symm

theorem leadsTo_setLastBody {branch : Branch} {target newest : LineIndex}
    (leads : (branch.setLastBody newest).LeadsTo target) :
    branch.LeadsTo target ∨ target = newest := by
  obtain ⟨arm, member, body⟩ := leads
  unfold setLastBody at member
  split at member
  · rcases List.mem_append.mp member with old | new
    · exact Or.inl ⟨arm, (List.dropLast_sublist _).mem old, body⟩
    · rw [List.mem_singleton.mp new] at body
      exact Or.inr (Option.some.inj body).symm
  · exact Or.inl ⟨arm, member, body⟩

end Branch

end Parley
