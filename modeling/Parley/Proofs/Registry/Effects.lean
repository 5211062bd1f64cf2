import Parley.Proofs.Registry.Typed

/-!
# What calls do to the variables

Only an assignment writes a variable, and only if it succeeds.  So commands that are
run in order do to the variables what the assignments do that are among those that
complete, and a condition, which is never an assignment, does nothing to them.
-/

namespace Parley

/-- The variables after a call that completes: an assignment sets its target, any other
call leaves them alone. -/
def Store.assign (store : Store) (call : Call) : Store :=
  if call.name = Command.assignName then
    match call.arguments with
    | [.reference target, source] =>
        match source.value store with
        | .ok value => store.insert target value
        | .error _ => store
    | _ => store
  else store

/-- The variables after calls that complete one after the other. -/
def Store.assignAll (store : Store) (calls : List Call) : Store :=
  calls.foldl Store.assign store

@[simp]
theorem Store.assignAll_nil (store : Store) : store.assignAll [] = store :=
  rfl

variable {σ : Type}

namespace Registry

/-- The commands of calls that complete when the calls are run in order: those before the
first that fails. -/
def completed (registry : Registry σ) : List Call → World σ → List Call
  | [], _ => []
  | call :: rest, world =>
      match registry.call call world with
      | (.error _, _) => []
      | (.ok _, world) => call :: registry.completed rest world

variable {registry : Registry σ} {calls : List Call}

/-- Calls succeed together if each of them completes. -/
theorem completed_eq_of_runAll {world after : World σ}
    (ran : registry.runAll calls world = (.ok (), after)) :
    registry.completed calls world = calls := by
  induction calls generalizing world with
  | nil => rfl
  | cons call rest ih =>
      unfold runAll at ran
      unfold completed
      rcases first : registry.call call world with ⟨_ | result, next⟩
      · rw [first] at ran
        cases ran
      · rw [first] at ran
        exact congrArg (call :: ·) (ih ran)

/-- If calls fail together, the one after those that complete fails. -/
theorem exists_failing_of_runAll {world after : World σ} {fault : Fault}
    (ran : registry.runAll calls world = (.error fault, after)) :
    ∃ call rest between, calls = registry.completed calls world ++ call :: rest ∧
      registry.runAll (registry.completed calls world) world = (.ok (), between) ∧
      registry.call call between = (.error fault, after) := by
  induction calls generalizing world with
  | nil => cases ran
  | cons call rest ih =>
      unfold runAll at ran
      unfold completed
      rcases first : registry.call call world with ⟨_ | result, next⟩
      · rw [first] at ran
        cases ran
        exact ⟨call, rest, world, rfl, rfl, first⟩
      · rw [first] at ran
        obtain ⟨failing, others, between, split, done, fails⟩ := ih ran
        refine ⟨failing, others, between, congrArg (call :: ·) split, ?_, fails⟩
        simp only [runAll, first]
        exact done

/-- If calls fail together, fewer of them complete than there are. -/
theorem length_completed_lt_of_runAll {world after : World σ} {fault : Fault}
    (ran : registry.runAll calls world = (.error fault, after)) :
    (registry.completed calls world).length < calls.length := by
  obtain ⟨call, rest, _, split, -⟩ := exists_failing_of_runAll ran
  have lengths := congrArg List.length split
  rw [List.length_append, List.length_cons] at lengths
  omega

/-- A registry that a host can make and in which the assignment is the built-in one. -/
structure HasAssignment (registry : Registry σ) : Prop where
  built : registry.Built
  assigns : registry.get? Command.assignName = some Command.assignment

theorem hasAssignment_builtin : (builtin : Registry σ).HasAssignment :=
  ⟨.builtin, rfl⟩

/-- A host may add any command under another name. -/
theorem HasAssignment.register (has : registry.HasAssignment) {name : String}
    (parameters : List Parameter) (result : Option DataType) (function : HostFunction σ)
    (other : name ≠ Command.assignName) :
    (registry.register name parameters result function).HasAssignment where
  built := .register name parameters result function has.built
  assigns := by
    rw [Registry.register, NameMap.get?_insert, if_neg (Ne.symm other)]
    exact has.assigns

end Registry

namespace Command

variable {command : Command σ} {name : String} {arguments : List Argument}

/-- A command other than the assignment leaves the variables alone. -/
theorem store_run (tests : command.action ≠ .assign) (world : World σ) :
    (command.run name arguments world).2.store = world.store := by
  unfold run
  split
  · rename_i assigns
    exact absurd assigns tests
  · split
    · rfl
    · split <;> rfl
  · split <;> rfl

/-- An assignment that succeeds sets its target, and one that fails sets nothing. -/
theorem store_run_assignment (world : World σ) :
    ((assignment : Command σ).run assignName arguments world).2.store =
      match ((assignment : Command σ).run assignName arguments world).1 with
      | .ok _ => world.store.assign ⟨assignName, arguments⟩
      | .error _ => world.store := by
  simp only [run, assignment, Store.assign, if_pos]
  split
  · rename_i target source
    rcases found : source.value world.store with fault | value
    · rfl
    · simp only [*]
  · rfl

end Command

namespace Registry

variable {registry : Registry σ} {calls : List Call}

/-- A call that is no assignment leaves the variables alone, whether or not it succeeds. -/
theorem HasAssignment.store_call_of_ne (has : registry.HasAssignment) {call : Call}
    (tests : call.name ≠ Command.assignName) (world : World σ) :
    (registry.call call world).2.store = world.store := by
  simp only [Registry.call, perform]
  split
  · rfl
  · rename_i command found
    exact Command.store_run (has.built.action_ne_assign found tests) world

/-- A call that completes does to the variables what its assignment does, and one that fails
does nothing. -/
theorem HasAssignment.store_call (has : registry.HasAssignment) (call : Call) (world : World σ) :
    (registry.call call world).2.store =
      match (registry.call call world).1 with
      | .ok _ => world.store.assign call
      | .error _ => world.store := by
  by_cases assigns : call.name = Command.assignName
  · obtain ⟨name, arguments⟩ := call
    obtain rfl : name = Command.assignName := assigns
    simp only [Registry.call, perform, has.assigns]
    exact Command.store_run_assignment world
  · rw [has.store_call_of_ne assigns]
    split
    · rw [Store.assign, if_neg assigns]
    · rfl

/-- Commands that are run in order do to the variables what those do that complete. -/
theorem HasAssignment.store_runAll (has : registry.HasAssignment) (calls : List Call)
    (world : World σ) :
    (registry.runAll calls world).2.store =
      world.store.assignAll (registry.completed calls world) := by
  induction calls generalizing world with
  | nil => rfl
  | cons call rest ih =>
      have first := has.store_call call world
      unfold runAll completed
      rcases ran : registry.call call world with ⟨_ | result, next⟩
      · rw [ran] at first
        exact first
      · rw [ran] at first
        exact (ih next).trans (congrArg (Store.assignAll · _) first)

/-- Evaluating a condition leaves the variables alone. -/
theorem HasAssignment.store_holds (has : registry.HasAssignment) {condition : Call}
    (tests : condition.name ≠ Command.assignName) (world : World σ) :
    (registry.holds condition world).2.store = world.store := by
  have same := has.store_call_of_ne tests world
  unfold holds
  split <;> rename_i ran <;> rw [ran] at same <;> exact same

theorem HasAssignment.store_allHold (has : registry.HasAssignment) {conditions : List Call}
    (tests : ∀ condition ∈ conditions, condition.name ≠ Command.assignName) (world : World σ) :
    (registry.allHold conditions world).2.store = world.store := by
  induction conditions generalizing world with
  | nil => rfl
  | cons condition rest ih =>
      have first := has.store_holds (tests condition List.mem_cons_self) world
      unfold allHold
      split <;> rename_i ran <;> rw [ran] at first
      · exact first
      · exact first
      · exact (ih (fun other member => tests other (List.mem_cons_of_mem _ member)) _).trans first

end Registry

end Parley
