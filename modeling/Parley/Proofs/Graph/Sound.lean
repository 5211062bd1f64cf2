import Parley.Proofs.Graph.Change
import Parley.Proofs.Script.Accepted

/-!
# Sound graphs

A node is sound in a scope if its calls may be placed there and the branch it
leads to exists.  In a sound branch only the last arm can go without conditions.
Soundness is a property of single nodes, so every change of a graph keeps it that
keeps it on the nodes it changes.
-/

namespace Parley

open Parley.Script

/-- The calls and the branch of a line, where there are `branches` branches. -/
structure Line.Sound (scope : Scope) (branches : Nat) (line : Line) : Prop where
  commands : ∀ call ∈ line.commands, scope.Accepts call
  branch : ∀ id, line.branch = some id → id < branches

/-- The calls and the branch of a choice, where there are `branches` branches. -/
structure Choice.Sound (scope : Scope) (branches : Nat) (choice : Choice) : Prop where
  commands : ∀ call ∈ choice.commands, scope.Accepts call
  conditions : ∀ call ∈ choice.conditions, scope.AcceptsCondition call
  branch : ∀ id, choice.branch = some id → id < branches

/-- The arms of a branch: there is one, and the arms before the last ask for
something. -/
structure Branch.Sound (scope : Scope) (branch : Branch) : Prop where
  conditions : ∀ arm ∈ branch.arms, ∀ call ∈ arm.conditions, scope.AcceptsCondition call
  nonempty : branch.arms ≠ []
  guarded : ∀ arm ∈ branch.arms.dropLast, arm.conditions ≠ []

variable {scope : Scope}

theorem Line.sound_relay (branches : Nat) : Line.relay.Sound scope branches where
  commands := by simp [Line.relay]
  branch := by simp [Line.relay]

theorem Line.Sound.mono {line : Line} {branches more : Nat} (sound : line.Sound scope branches)
    (le : branches ≤ more) : line.Sound scope more where
  commands := sound.commands
  branch id linked := Nat.lt_of_lt_of_le (sound.branch id linked) le

/-- A line may lead to any branch that exists. -/
theorem Line.Sound.withBranch {line : Line} {branches : Nat} (sound : line.Sound scope branches)
    {id : BranchIndex} (known : id < branches) :
    Line.Sound scope branches { line with branch := some id } where
  commands := sound.commands
  branch := by
    rintro _ ⟨⟩
    exact known

theorem Choice.sound_fresh {conditions commands : List Call} (branches : Nat) (text : String)
    (root : LineIndex) (acceptsConditions : ∀ call ∈ conditions, scope.AcceptsCondition call)
    (acceptsCommands : ∀ call ∈ commands, scope.Accepts call) :
    (Choice.fresh text conditions commands root).Sound scope branches where
  commands := acceptsCommands
  conditions := acceptsConditions
  branch := by simp [Choice.fresh]

theorem Choice.Sound.mono {choice : Choice} {branches more : Nat}
    (sound : choice.Sound scope branches) (le : branches ≤ more) : choice.Sound scope more where
  commands := sound.commands
  conditions := sound.conditions
  branch id linked := Nat.lt_of_lt_of_le (sound.branch id linked) le

/-- A choice may lead to any branch that exists. -/
theorem Choice.Sound.withBranch {choice : Choice} {branches : Nat}
    (sound : choice.Sound scope branches) {id : BranchIndex} (known : id < branches) :
    Choice.Sound scope branches { choice with branch := some id } where
  commands := sound.commands
  conditions := sound.conditions
  branch := by
    rintro _ ⟨⟩
    exact known

namespace Branch

variable {branch : Branch}

/-- A branch whose first arm asks for something. -/
theorem sound_singleton {conditions : List Call}
    (accepted : ∀ call ∈ conditions, scope.AcceptsCondition call) :
    Branch.Sound scope ⟨[⟨conditions, none⟩]⟩ where
  conditions := by simpa using accepted
  nonempty := by simp
  guarded := by simp

/-- A branch in which every arm asks for something may get any arm. -/
theorem Sound.addArm (sound : branch.Sound scope) (incomplete : branch.isExhaustive = false)
    {conditions : List Call} (accepted : ∀ call ∈ conditions, scope.AcceptsCondition call)
    (body : Option LineIndex) : (branch.addArm conditions body).Sound scope where
  conditions := by
    intro arm member
    rcases List.mem_append.mp member with member | member
    · exact sound.conditions arm member
    · rw [List.mem_singleton.mp member]
      exact accepted
  nonempty := by simp
  guarded := by
    intro arm member unconditional
    rw [arms_addArm, List.dropLast_concat] at member
    have exhaustive := branch.isExhaustive_iff.mpr ⟨arm, member, unconditional⟩
    rw [incomplete] at exhaustive
    contradiction

/-- Soundness of a branch is a property of its conditions. -/
theorem Sound.of_conditions_eq {other : Branch} (sound : branch.Sound scope)
    (same : other.arms.map Arm.conditions = branch.arms.map Arm.conditions) :
    other.Sound scope where
  conditions := by
    intro arm member call asked
    have listed : arm.conditions ∈ branch.arms.map Arm.conditions :=
      same ▸ List.mem_map_of_mem member
    obtain ⟨held, heldMember, heldEq⟩ := List.mem_map.mp listed
    exact sound.conditions held heldMember call (heldEq ▸ asked)
  nonempty := by
    intro none
    rw [none, List.map_nil, eq_comm, List.map_eq_nil_iff] at same
    exact sound.nonempty same
  guarded := by
    intro arm member unconditional
    have listed : arm.conditions ∈ (branch.arms.map Arm.conditions).dropLast := by
      rw [← same, ← List.map_dropLast]
      exact List.mem_map_of_mem member
    rw [← List.map_dropLast] at listed
    obtain ⟨held, heldMember, heldEq⟩ := List.mem_map.mp listed
    exact sound.guarded held heldMember (heldEq.trans unconditional)

theorem isExhaustive_eq_of_conditions_eq {other : Branch}
    (same : other.arms.map Arm.conditions = branch.arms.map Arm.conditions) :
    other.isExhaustive = branch.isExhaustive := by
  have through : ∀ branch : Branch,
      branch.isExhaustive = (branch.arms.map Arm.conditions).any List.isEmpty := by
    intro branch
    rw [List.any_map]
    rfl
  rw [through, through, same]

/-- A sound and exhaustive branch ends with its only arm without conditions. -/
theorem Sound.exists_default (sound : branch.Sound scope)
    (exhaustive : branch.isExhaustive = true) :
    ∃ earlier last, branch.arms = earlier ++ [last] ∧ last.conditions = [] ∧
      ∀ arm ∈ earlier, arm.conditions ≠ [] := by
  have split : branch.arms.dropLast ++ [branch.arms.getLast sound.nonempty] = branch.arms :=
    List.dropLast_concat_getLast sound.nonempty
  have default : (branch.arms.getLast sound.nonempty).conditions = [] := by
    obtain ⟨arm, member, unconditional⟩ := branch.isExhaustive_iff.mp exhaustive
    rw [← split] at member
    rcases List.mem_append.mp member with earlier | last
    · exact absurd unconditional (sound.guarded arm earlier)
    · rw [← List.mem_singleton.mp last]
      exact unconditional
  exact ⟨_, _, split.symm, default, sound.guarded⟩

end Branch

/-- A graph of sound nodes. -/
structure Graph.Sound (scope : Scope) (graph : Graph) : Prop where
  lines : ∀ id, (graph.line id).Sound scope graph.branches.size
  branches : ∀ id < graph.branches.size, (graph.branch id).Sound scope
  choices : ∀ id, (graph.choice id).Sound scope graph.branches.size

namespace Graph.Sound

variable {graph : Graph}

theorem empty : Graph.empty.Sound scope where
  lines _ := Line.sound_relay _
  branches _ known := by simp [Graph.empty] at known
  choices _ := Choice.sound_fresh _ _ _ (by simp) (by simp)

theorem addLine (sound : graph.Sound scope) {line : Line}
    (lineSound : line.Sound scope graph.branches.size) : (graph.addLine line).Sound scope where
  lines id := by
    rw [line_addLine]
    split
    · exact lineSound
    · exact sound.lines id
  branches := sound.branches
  choices := sound.choices

theorem modifyLine (sound : graph.Sound scope) (id : LineIndex) {change : Line → Line}
    (keeps : ∀ line : Line, line.Sound scope graph.branches.size →
      (change line).Sound scope graph.branches.size) :
    (graph.modifyLine id change).Sound scope where
  lines other := by
    rw [line_modifyLine_eq]
    split
    · exact keeps _ (sound.lines other)
    · exact sound.lines other
  branches := sound.branches
  choices := sound.choices

theorem setNext (sound : graph.Sound scope) (id next : LineIndex) :
    (graph.setNext id next).Sound scope :=
  sound.modifyLine id fun _ lineSound => ⟨lineSound.commands, lineSound.branch⟩

theorem foldl_setNext {α : Type} (sound : graph.Sound scope) (place : α → LineIndex)
    (changed : List α) (next : LineIndex) :
    (changed.foldl (fun graph item => graph.setNext (place item) next) graph).Sound scope := by
  induction changed generalizing graph with
  | nil => exact sound
  | cons item rest ih => exact ih (sound.setNext (place item) next)

theorem addBranch (sound : graph.Sound scope) {branch : Branch}
    (branchSound : branch.Sound scope) : (graph.addBranch branch).Sound scope where
  lines id := (sound.lines id).mono (by simp)
  branches id known := by
    rw [branch_addBranch]
    split
    · exact branchSound
    · rename_i older
      rw [size_branches_addBranch] at known
      exact sound.branches id (Nat.lt_of_le_of_ne (Nat.le_of_lt_succ known) older)
  choices id := (sound.choices id).mono (by simp)

theorem modifyBranch (sound : graph.Sound scope) (id : BranchIndex) {change : Branch → Branch}
    (keeps : id < graph.branches.size → (change (graph.branch id)).Sound scope) :
    (graph.modifyBranch id change).Sound scope where
  lines other := by
    rw [size_branches_modifyBranch]
    exact sound.lines other
  branches other known := by
    rw [size_branches_modifyBranch] at known
    rw [branch_modifyBranch_eq]
    split
    · rename_i same
      obtain ⟨rfl, _⟩ := same
      exact keeps known
    · exact sound.branches other known
  choices other := by
    rw [size_branches_modifyBranch]
    exact sound.choices other

theorem addChoice (sound : graph.Sound scope) {choice : Choice}
    (choiceSound : choice.Sound scope graph.branches.size) :
    (graph.addChoice choice).Sound scope where
  lines := sound.lines
  branches := sound.branches
  choices id := by
    rw [choice_addChoice]
    split
    · exact choiceSound
    · exact sound.choices id

theorem modifyChoice (sound : graph.Sound scope) (id : ChoiceIndex) {change : Choice → Choice}
    (keeps : ∀ choice : Choice, choice.Sound scope graph.branches.size →
      (change choice).Sound scope graph.branches.size) :
    (graph.modifyChoice id change).Sound scope where
  lines := sound.lines
  branches := sound.branches
  choices other := by
    rw [choice_modifyChoice_eq]
    split
    · exact keeps _ (sound.choices other)
    · exact sound.choices other

theorem addEntry (sound : graph.Sound scope) (title : String) (line : LineIndex) :
    (graph.addEntry title line).Sound scope :=
  ⟨sound.lines, sound.branches, sound.choices⟩

end Graph.Sound

end Parley
