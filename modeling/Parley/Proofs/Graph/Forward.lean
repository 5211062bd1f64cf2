import Parley.Graph.Follow
import Parley.Proofs.Graph.Relays

/-!
# Where walks end

A walk ends on a spoken line or at the end of the dialogue.  Where every link leads forward, it
never goes back: the line after a line, and the line to which a choice offered there leads, are
later ones.
-/

namespace Parley

variable {σ : Type}

namespace Graph

variable {graph : Graph} {registry : Registry σ} {world after : World σ} {id target : LineIndex}

/-- A graph in which every link leads forward, without exception. -/
abbrev RunsForward (graph : Graph) : Prop :=
  graph.Forward fun _ => False

/-- The successor of a line is a later one. -/
theorem RunsForward.lt_of_next (forward : graph.RunsForward)
    (linked : (graph.line id).next = some target) : id < target := by
  rcases forward.next id target linked with ⟨later, -⟩ | impossible
  · exact later
  · exact impossible.elim

/-- The arm that is taken is one of the arms. -/
theorem leadsTo_of_takenArm {arms : List Arm}
    (taken : takenArm registry arms world = (.ok (some target), after)) :
    Branch.LeadsTo ⟨arms⟩ target := by
  induction arms generalizing world with
  | nil => cases taken
  | cons arm rest ih =>
      unfold takenArm at taken
      split at taken
      · cases taken
      · have body := congrArg Prod.fst taken
        exact ⟨arm, List.mem_cons_self, Except.ok.inj body⟩
      · obtain ⟨other, member, body⟩ := ih taken
        exact ⟨other, List.mem_cons_of_mem arm member, body⟩

/-- A walk stops at a spoken line. -/
theorem speaks_of_firstSpokenWithin {fuel : Nat} {start : Option LineIndex}
    (walked : graph.firstSpokenWithin registry fuel start world = (.ok (some target), after)) :
    graph.Speaks target := by
  induction fuel generalizing start world with
  | zero => cases walked
  | succ fuel ih =>
      rcases start with _ | id
      · cases walked
      · simp only [firstSpokenWithin] at walked
        split at walked
        · split at walked
          · cases walked
          · exact ih walked
        · rename_i spoken
          cases walked
          exact eq_false_of_ne_true spoken

theorem speaks_of_firstSpoken {start : Option LineIndex}
    (walked : graph.firstSpoken registry start world = (.ok (some target), after)) :
    graph.Speaks target :=
  speaks_of_firstSpokenWithin walked

/-- Whatever a branch and a successor lead to is spoken. -/
theorem speaks_of_follow {branch : Option BranchIndex} {next : Option LineIndex}
    (followed : graph.follow registry branch next world = (.ok (some target), after)) :
    graph.Speaks target := by
  unfold follow at followed
  split at followed
  · unfold throughBranch at followed
    split at followed
    · cases followed
    · exact speaks_of_firstSpoken followed
  · exact speaks_of_firstSpoken followed

/-- A walk ends no earlier than where it began. -/
theorem le_of_firstSpokenWithin (forward : graph.RunsForward) {fuel : Nat}
    (walked : graph.firstSpokenWithin registry fuel (some id) world = (.ok (some target), after)) :
    id ≤ target := by
  induction fuel generalizing id world with
  | zero => cases walked
  | succ fuel ih =>
      unfold firstSpokenWithin at walked
      dsimp only at walked
      split at walked
      · -- A relay leads to a later place, and the walk goes on from there.
        split at walked
        · cases walked
        · rename_i next between passed
          rcases next with _ | next
          · cases fuel <;> simp [firstSpokenWithin] at walked
          · have later : id < next := by
              unfold afterRelay at passed
              split at passed
              · rename_i branch branched
                exact (forward.into id next (.arm branched (leadsTo_of_takenArm passed))).1
              · exact forward.lt_of_next (Except.ok.inj (congrArg Prod.fst passed))
            exact Nat.le_of_lt (Nat.lt_of_lt_of_le later (ih walked))
      · cases walked
        exact Nat.le_refl _

theorem le_of_firstSpoken (forward : graph.RunsForward) {start : Option LineIndex} {bound : Nat}
    (from' : ∀ id, start = some id → bound ≤ id)
    (walked : graph.firstSpoken registry start world = (.ok (some target), after)) :
    bound ≤ target := by
  rcases start with _ | id
  · rw [firstSpoken_none] at walked
    cases walked
  · exact Nat.le_trans (from' id rfl) (le_of_firstSpokenWithin forward walked)

/-- Whatever a branch and a successor lead to is no earlier than all that they may lead to. -/
theorem le_of_follow (forward : graph.RunsForward) {branch : Option BranchIndex}
    {next : Option LineIndex} {bound : Nat}
    (through : ∀ node id, branch = some node → (graph.branch node).LeadsTo id → bound ≤ id)
    (on : ∀ id, next = some id → bound ≤ id)
    (followed : graph.follow registry branch next world = (.ok (some target), after)) :
    bound ≤ target := by
  unfold follow at followed
  split at followed
  · rename_i node
    unfold throughBranch at followed
    split at followed
    · cases followed
    · rename_i body between taken
      refine le_of_firstSpoken forward (fun id leads => ?_) followed
      subst leads
      exact through node id rfl (leadsTo_of_takenArm taken)
  · exact le_of_firstSpoken forward on followed

/-- The line after a line is a later one. -/
theorem lt_of_afterLine (forward : graph.RunsForward)
    (left : graph.afterLine registry id world = (.ok (some target), after)) : id < target := by
  refine le_of_follow forward ?_ ?_ left
  · exact fun node next branched leads => (forward.into id next (.arm branched leads)).1
  · exact fun next linked => forward.lt_of_next linked

/-- That a choice is made changes no link. -/
theorem grows_markSelected (excused : LineIndex → Prop) (graph : Graph) (choice : ChoiceIndex) :
    Grows excused graph (graph.markSelected choice) :=
  Grows.modifyChoice_selected graph true

/-- A choice that leads to a line is followed to it in the graph in which it has been made. -/
theorem follow_of_select {choice : ChoiceIndex}
    (made : (graph.select registry choice world).outcome = .ok (some target)) :
    ∃ between after, (graph.markSelected choice).follow registry (graph.choice choice).branch
      (graph.choice choice).next between = (.ok (some target), after) := by
  simp only [select] at made
  split at made
  · cases made
  · exact ⟨_, _, Prod.ext made rfl⟩

/-- A choice leads to a spoken line. -/
theorem speaks_of_select {choice : ChoiceIndex}
    (made : (graph.select registry choice world).outcome = .ok (some target)) :
    graph.Speaks target := by
  obtain ⟨between, after, followed⟩ := follow_of_select made
  exact (speaks_of_follow followed).of_lines_eq rfl

/-- A choice leads to a line after the one that offers it. -/
theorem lt_of_select (forward : graph.RunsForward) {choice : ChoiceIndex}
    (offered : choice ∈ (graph.line id).choices)
    (made : (graph.select registry choice world).outcome = .ok (some target)) : id < target := by
  obtain ⟨between, after, followed⟩ := follow_of_select made
  refine le_of_follow (forward.grow (grows_markSelected _ graph choice)) ?_ ?_ followed
  · exact fun node next branched leads =>
      (forward.into id next (.choiceArm offered branched leads)).1
  · exact fun next linked => (forward.into id next (.choice offered linked)).1

end Graph

end Parley
