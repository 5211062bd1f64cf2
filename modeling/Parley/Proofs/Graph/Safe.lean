import Parley.Graph.Follow
import Parley.Proofs.Graph.Change

/-!
# What a walk can do

What a graph does to the world is done by its calls.  Suppose that every call of
a graph keeps a property of the world and fails only in certain ways, and that
every branch has an arm without conditions.  Then the same is true of every walk
through the graph and of every choice made in it.  What the calls keep and how
they fail is left open here.
-/

namespace Parley

variable {σ α : Type} {kept : World σ → Prop} {allowed : Fault → Prop} {registry : Registry σ}

/-- A result that leaves a world with the property `kept` and fails only in the
ways `allowed`. -/
structure Safe (kept : World σ → Prop) (allowed : Fault → Prop)
    (result : Except Fault α × World σ) : Prop where
  world : kept result.2
  fault : ∀ fault, result.1 = .error fault → allowed fault

namespace Safe

theorem ok {value : α} {world : World σ} (held : kept world) :
    Safe kept allowed ((.ok value, world) : Except Fault α × World σ) where
  world := held
  fault _ failed := by cases failed

theorem error {fault : Fault} {world : World σ} (held : kept world) (fine : allowed fault) :
    Safe kept allowed ((.error fault, world) : Except Fault α × World σ) where
  world := held
  fault other failed := by
    cases failed
    exact fine

end Safe

namespace Registry

/-- A call that is safe as a command. -/
def SafeCommand (registry : Registry σ) (kept : World σ → Prop) (allowed : Fault → Prop)
    (call : Call) : Prop :=
  ∀ world, kept world → Safe kept allowed (registry.call call world)

/-- A call that is safe as a condition. -/
def SafeCondition (registry : Registry σ) (kept : World σ → Prop) (allowed : Fault → Prop)
    (call : Call) : Prop :=
  ∀ world, kept world → Safe kept allowed (registry.holds call world)

theorem safe_runAll {calls : List Call}
    (safe : ∀ call ∈ calls, registry.SafeCommand kept allowed call) {world : World σ}
    (held : kept world) : Safe kept allowed (registry.runAll calls world) := by
  induction calls generalizing world with
  | nil => exact Safe.ok held
  | cons call rest ih =>
      have first := safe call List.mem_cons_self world held
      simp only [runAll]
      rcases ran : registry.call call world with ⟨outcome, after⟩
      rw [ran] at first
      cases outcome with
      | error fault => exact Safe.error first.world (first.fault fault rfl)
      | ok result =>
          exact ih (fun call member => safe call (List.mem_cons_of_mem _ member)) first.world

theorem safe_allHold {conditions : List Call}
    (safe : ∀ condition ∈ conditions, registry.SafeCondition kept allowed condition)
    {world : World σ} (held : kept world) :
    Safe kept allowed (registry.allHold conditions world) := by
  induction conditions generalizing world with
  | nil => exact Safe.ok held
  | cons condition rest ih =>
      have first := safe condition List.mem_cons_self world held
      simp only [allHold]
      rcases ran : registry.holds condition world with ⟨outcome, after⟩
      rw [ran] at first
      rcases outcome with fault | truth
      · exact Safe.error first.world (first.fault fault rfl)
      · cases truth with
        | false => exact Safe.ok first.world
        | true =>
            exact ih (fun call member => safe call (List.mem_cons_of_mem _ member)) first.world

end Registry

/-- A branch whose conditions are safe and that has an arm without conditions. -/
structure Branch.Safe (registry : Registry σ) (kept : World σ → Prop) (allowed : Fault → Prop)
    (branch : Branch) : Prop where
  conditions : ∀ arm ∈ branch.arms, ∀ condition ∈ arm.conditions,
    registry.SafeCondition kept allowed condition
  exhaustive : ∃ arm ∈ branch.arms, arm.conditions = []

namespace Graph

/-- A graph in which every call is safe and every branch that a node leads to has
an arm without conditions. -/
structure Safe (registry : Registry σ) (kept : World σ → Prop) (allowed : Fault → Prop)
    (graph : Graph) : Prop where
  commands : ∀ id, ∀ call ∈ (graph.line id).commands, registry.SafeCommand kept allowed call
  branch : ∀ id branch, (graph.line id).branch = some branch →
    (graph.branch branch).Safe registry kept allowed
  choiceCommands : ∀ id, ∀ call ∈ (graph.choice id).commands,
    registry.SafeCommand kept allowed call
  choiceConditions : ∀ id, ∀ call ∈ (graph.choice id).conditions,
    registry.SafeCondition kept allowed call
  choiceBranch : ∀ id branch, (graph.choice id).branch = some branch →
    (graph.branch branch).Safe registry kept allowed
  walks : allowed (.walkTooLong walkLimit)

/-- Where there is an arm without conditions, some arm is taken. -/
theorem safe_takenArm {arms : List Arm}
    (safe : ∀ arm ∈ arms, ∀ condition ∈ arm.conditions,
      registry.SafeCondition kept allowed condition)
    (exhaustive : ∃ arm ∈ arms, arm.conditions = []) {world : World σ} (held : kept world) :
    Parley.Safe kept allowed (takenArm registry arms world) := by
  induction arms generalizing world with
  | nil =>
      obtain ⟨_, member, _⟩ := exhaustive
      cases member
  | cons arm rest ih =>
      have first := Registry.safe_allHold (safe arm List.mem_cons_self) held
      simp only [takenArm]
      rcases ran : registry.allHold arm.conditions world with ⟨outcome, after⟩
      rw [ran] at first
      rcases outcome with fault | truth
      · exact Safe.error first.world (first.fault fault rfl)
      · cases truth with
        | true => exact Safe.ok first.world
        | false =>
            -- An arm that was passed over asked for something.
            have later : ∃ arm ∈ rest, arm.conditions = [] := by
              obtain ⟨other, member, unconditional⟩ := exhaustive
              rcases List.mem_cons.mp member with rfl | member
              · rw [unconditional] at ran
                cases ran
              · exact ⟨other, member, unconditional⟩
            exact ih (fun arm member => safe arm (List.mem_cons_of_mem _ member)) later first.world

namespace Safe

variable {graph : Graph} {world : World σ}

theorem afterRelay (safe : graph.Safe registry kept allowed) (id : LineIndex)
    (held : kept world) :
    Parley.Safe kept allowed (graph.afterRelay registry (graph.line id) world) := by
  unfold Graph.afterRelay
  split
  · rename_i branch linked
    have branchSafe := safe.branch id branch linked
    exact safe_takenArm branchSafe.conditions branchSafe.exhaustive held
  · exact Safe.ok held

theorem firstSpokenWithin (safe : graph.Safe registry kept allowed) (fuel : Nat)
    (place : Option LineIndex) (held : kept world) :
    Parley.Safe kept allowed (graph.firstSpokenWithin registry fuel place world) := by
  induction fuel generalizing place world with
  | zero => exact Safe.error held safe.walks
  | succ fuel ih =>
      cases place with
      | none => exact Safe.ok held
      | some id =>
          simp only [Graph.firstSpokenWithin]
          split
          · have first := safe.afterRelay id held
            rcases ran : graph.afterRelay registry (graph.line id) world with ⟨outcome, after⟩
            rw [ran] at first
            cases outcome with
            | error fault => exact Safe.error first.world (first.fault fault rfl)
            | ok next => exact ih next first.world
          · exact Safe.ok held

theorem firstSpoken (safe : graph.Safe registry kept allowed) (place : Option LineIndex)
    (held : kept world) : Parley.Safe kept allowed (graph.firstSpoken registry place world) :=
  safe.firstSpokenWithin walkLimit place held

theorem throughBranch (safe : graph.Safe registry kept allowed) {branch : BranchIndex}
    (branchSafe : (graph.branch branch).Safe registry kept allowed) (held : kept world) :
    Parley.Safe kept allowed (graph.throughBranch registry branch world) := by
  have first := safe_takenArm branchSafe.conditions branchSafe.exhaustive held
  unfold Graph.throughBranch
  rcases ran : takenArm registry (graph.branch branch).arms world with ⟨outcome, after⟩
  rw [ran] at first
  cases outcome with
  | error fault => exact Safe.error first.world (first.fault fault rfl)
  | ok body => exact safe.firstSpoken body first.world

theorem follow (safe : graph.Safe registry kept allowed) {branch : Option BranchIndex}
    (branchSafe : ∀ id, branch = some id → (graph.branch id).Safe registry kept allowed)
    (place : Option LineIndex) (held : kept world) :
    Parley.Safe kept allowed (graph.follow registry branch place world) := by
  cases branch with
  | none => exact safe.firstSpoken place held
  | some id => exact safe.throughBranch (branchSafe id rfl) held

theorem afterLine (safe : graph.Safe registry kept allowed) (id : LineIndex)
    (held : kept world) : Parley.Safe kept allowed (graph.afterLine registry id world) :=
  safe.follow (safe.branch id) _ held

theorem canChoose (safe : graph.Safe registry kept allowed) (id : ChoiceIndex)
    (held : kept world) : Parley.Safe kept allowed (graph.canChoose registry id world) :=
  Registry.safe_allHold (safe.choiceConditions id) held

/-- Remembering a choice changes no call and no link. -/
theorem markSelected (safe : graph.Safe registry kept allowed) (id : ChoiceIndex) :
    (graph.markSelected id).Safe registry kept allowed where
  commands := safe.commands
  branch := safe.branch
  choiceCommands other := by
    rw [Graph.markSelected, choice_modifyChoice_eq]
    split <;> exact safe.choiceCommands other
  choiceConditions other := by
    rw [Graph.markSelected, choice_modifyChoice_eq]
    split <;> exact safe.choiceConditions other
  choiceBranch other := by
    rw [Graph.markSelected, choice_modifyChoice_eq]
    split <;> exact safe.choiceBranch other
  walks := safe.walks

/-- Making a choice is safe and leaves a safe graph. -/
theorem select (safe : graph.Safe registry kept allowed) (id : ChoiceIndex) (held : kept world) :
    Parley.Safe kept allowed
        ((graph.select registry id world).outcome, (graph.select registry id world).world) ∧
      (graph.select registry id world).graph.Safe registry kept allowed := by
  have first := Registry.safe_runAll (safe.choiceCommands id) held
  simp only [Graph.select]
  rcases ran : registry.runAll (graph.choice id).commands world with ⟨outcome, after⟩
  rw [ran] at first
  cases outcome with
  | error fault =>
      exact ⟨Safe.error first.world (first.fault fault rfl), safe⟩
  | ok done =>
      have marked := safe.markSelected id
      have branchSafe : ∀ branch, (graph.choice id).branch = some branch →
          ((graph.markSelected id).branch branch).Safe registry kept allowed :=
        safe.choiceBranch id
      exact ⟨marked.follow branchSafe _ first.world, marked⟩

end Safe

end Graph

end Parley
