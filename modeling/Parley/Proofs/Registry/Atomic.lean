import Parley.Proofs.Registry.Recording

/-!
# Calls are carried out as a whole

A call that fails has not set a variable.  One that completes has set its target if it is an
assignment, to the value that the source had before, and it has set nothing else.  Calls that are
run in order are made one by one up to the first that fails: that one is the last to be made, and
its fault is that of the run.
-/

namespace Parley

variable {σ : Type}

namespace Registry

/-- Whether a call is of the built-in assignment. -/
def Assigns (registry : Registry σ) (call : Call) : Prop :=
  (registry.get? call.name).map Command.action = some .assign

/-- What a call does to the variables it does as a whole: nothing if it fails, nothing if it is no
assignment, and else its target is set, to the value that its source had before. -/
structure IsAtomic (registry : Registry σ) (call : Call) (world : World σ) : Prop where
  failed : ∀ fault, (registry.call call world).1 = .error fault →
    (registry.call call world).2.store = world.store
  tests : ¬ registry.Assigns call → (registry.call call world).2.store = world.store
  assigned : ∀ result, (registry.call call world).1 = .ok result → registry.Assigns call →
    ∃ target source value, call.arguments = [.reference target, source] ∧
      source.value world.store = .ok value ∧
      (registry.call call world).2.store.get? target = some value ∧
      ∀ other, other ≠ target →
        (registry.call call world).2.store.get? other = world.store.get? other

end Registry

/-- What comes of calls that are run in order.  Either all of them complete, or the run ends with
the first that fails, and its fault is that of the run. -/
inductive RunInOrder : List Call → List (Trial (Option Value)) → Except Fault Unit → Prop
  | all (done : List (Trial (Option Value))) (complete : ∀ trial ∈ done, trial.outcome.isOk) :
      RunInOrder (done.map Trial.call) done (.ok ())
  | upTo (done : List (Trial (Option Value))) (complete : ∀ trial ∈ done, trial.outcome.isOk)
      (call : Call) (fault : Fault) (later : List Call) :
      RunInOrder (done.map Trial.call ++ call :: later) (done ++ [⟨call, .error fault⟩])
        (.error fault)

/-! ## One call -/

/-- An assignment fails and changes nothing, or it has a target and a source with a value, and it
sets the target to that. -/
theorem Command.run_of_assigns {command : Command σ} (acts : command.action = .assign)
    (name : String) (arguments : List Argument) (world : World σ) :
    (∃ fault, command.run name arguments world = (.error fault, world)) ∨
    ∃ target source value, arguments = [.reference target, source] ∧
      source.value world.store = .ok value ∧
      command.run name arguments world =
        (.ok none, { world with store := world.store.insert target value }) := by
  simp only [run, acts]
  split
  · rename_i target source
    rcases found : source.value world.store with fault | value
    · exact Or.inl ⟨fault, by simp only⟩
    · exact Or.inr ⟨target, source, value, rfl, found, by simp only⟩
  · exact Or.inl ⟨_, rfl⟩

namespace Registry

/-- A call that is no assignment sets nothing. -/
theorem effect_of_not_assigns {registry : Registry σ} {call : Call}
    (tests : ¬ registry.Assigns call) (store : Store) : registry.effect store call = store := by
  unfold effect
  split
  · rename_i assigns
    exact absurd assigns tests
  · rfl

/-- Every call is carried out as a whole or not at all. -/
theorem isAtomic (registry : Registry σ) (call : Call) (world : World σ) :
    registry.IsAtomic call world := by
  have tests : ¬ registry.Assigns call → (registry.call call world).2.store = world.store :=
    fun tests => (registry.store_call call world).trans (effect_of_not_assigns tests world.store)
  by_cases assigns : registry.Assigns call
  · obtain ⟨command, found, acts⟩ := Option.map_eq_some_iff.mp assigns
    have runs : registry.call call world = command.run call.name call.arguments world := by
      simp only [Registry.call, perform, found]
    rcases command.run_of_assigns acts call.name call.arguments world with
      ⟨fault, fails⟩ | ⟨target, source, value, given, read, sets⟩
    · rw [← runs] at fails
      refine ⟨fun _ _ => by rw [fails], tests, fun result completes => ?_⟩
      rw [fails] at completes
      cases completes
    · rw [← runs] at sets
      refine ⟨fun fault fails => ?_, tests, fun _ _ _ => ⟨target, source, value, given, read, ?_⟩⟩
      · rw [sets] at fails
        cases fails
      · rw [sets]
        exact ⟨NameMap.get?_insert_self _ _ _, fun _ other => NameMap.get?_insert_of_ne _ other _⟩
  · exact ⟨fun _ _ => tests assigns, tests, fun _ _ is => absurd is assigns⟩

end Registry

/-! ## Calls in order -/

/-- What calls do to the variables that are made one after the other, whether or not they
complete. -/
theorem Trace.store_eq {registry : Registry σ} {world after : World σ}
    {trials : List (Trial (Option Value))} (trace : Trace registry.call world trials after) :
    after.store = (trials.map Trial.call).foldl registry.effect world.store := by
  induction trace with
  | nil => rfl
  | @cons world between after trial trials made _ ih =>
      rw [ih, List.map_cons, List.foldl_cons, ← registry.store_call, made]

namespace Registry

theorem exists_runInOrder (registry : Registry σ) (calls : List Call) (world : World σ) :
    ∃ trials, RunInOrder calls trials (registry.runAll calls world).1 ∧
      Trace registry.call world trials (registry.runAll calls world).2 := by
  induction calls generalizing world with
  | nil => exact ⟨[], .all [] (by simp), .nil world⟩
  | cons call rest ih =>
      unfold runAll
      rcases made : registry.call call world with ⟨fault | result, between⟩
      · exact ⟨[⟨call, .error fault⟩], .upTo [] (by simp) call fault rest, .cons made (.nil _)⟩
      · obtain ⟨trials, ran, trace⟩ := ih between
        refine ⟨⟨call, .ok result⟩ :: trials, ?_, .cons made trace⟩
        generalize (registry.runAll rest between).1 = outcome at ran ⊢
        cases ran with
        | all _ complete =>
            exact .all (⟨call, .ok result⟩ :: trials) (List.forall_mem_cons.mpr ⟨rfl, complete⟩)
        | upTo done complete last fault later =>
            exact .upTo (⟨call, .ok result⟩ :: done) (List.forall_mem_cons.mpr ⟨rfl, complete⟩)
              last fault later

variable {registry : Registry σ} {world between after : World σ}
  {done trials : List (Trial (Option Value))}

/-- After calls that complete come the others, and these calls are the first that complete. -/
theorem runAll_append (complete : ∀ trial ∈ done, trial.outcome.isOk)
    (trace : Trace registry.call world done between) (rest : List Call) :
    registry.runAll (done.map Trial.call ++ rest) world = registry.runAll rest between ∧
      registry.completed (done.map Trial.call ++ rest) world =
        done.map Trial.call ++ registry.completed rest between := by
  induction done generalizing world with
  | nil =>
      rw [Trace.nil_iff.mp trace]
      exact ⟨rfl, rfl⟩
  | cons trial done ih =>
      obtain ⟨completes, later⟩ := List.forall_mem_cons.mp complete
      obtain ⟨next, made, others⟩ := Trace.cons_iff.mp trace
      obtain ⟨call, fault | result⟩ := trial
      · cases completes
      · obtain ⟨runs, completed⟩ := ih later others
        simp only [List.map_cons, List.cons_append, runAll, Registry.completed, made]
        exact ⟨runs, congrArg (call :: ·) completed⟩

theorem runAll_of_runInOrder {calls : List Call} {outcome : Except Fault Unit}
    (ran : RunInOrder calls trials outcome) (trace : Trace registry.call world trials after) :
    registry.runAll calls world = (outcome, after) := by
  cases ran with
  | all _ complete =>
      have completed := (runAll_append complete trace []).1
      rwa [List.append_nil] at completed
  | upTo done complete call fault later =>
      obtain ⟨between, first, last⟩ := Trace.append_iff.mp trace
      obtain ⟨_, made, ended⟩ := Trace.cons_iff.mp last
      rw [Trace.nil_iff.mp ended, (runAll_append complete first _).1, runAll, made]

/-- Of the calls that are made those complete that have an outcome, and what these do to the
variables is all that is done to them. -/
theorem completed_of_runInOrder {calls : List Call} {outcome : Except Fault Unit}
    (ran : RunInOrder calls trials outcome) (trace : Trace registry.call world trials after) :
    registry.completed calls world =
        (trials.filter fun trial => trial.outcome.isOk).map Trial.call ∧
      after.store = (registry.completed calls world).foldl registry.effect world.store := by
  cases ran with
  | all _ complete =>
      have all := (runAll_append complete trace []).2
      rw [List.append_nil, completed, List.append_nil] at all
      rw [all, List.filter_eq_self.mpr complete]
      exact ⟨rfl, trace.store_eq⟩
  | upTo done complete call fault later =>
      obtain ⟨between, first, last⟩ := Trace.append_iff.mp trace
      obtain ⟨_, made, ended⟩ := Trace.cons_iff.mp last
      rw [Trace.nil_iff.mp ended, (runAll_append complete first _).2, completed, made]
      simp only [List.append_nil, List.filter_append, List.filter_eq_self.mpr complete]
      refine ⟨by simp [Except.isOk, Except.toBool], ?_⟩
      -- The call that fails leaves the variables as those before it have left them.
      have stays := (registry.isAtomic call between).failed fault (congrArg Prod.fst made)
      rw [made] at stays
      exact stays.trans first.store_eq

/-- Every call is carried out as a whole or not at all.  Calls that are run in order are made up to
the first that fails, and with its fault; the variables are afterwards what the calls before it
have made of them, one after the other.  A host sees these calls in this order, and nothing of
those behind the one that fails. -/
theorem runs_atomic_calls_in_order (registry : Registry σ) :
    (∀ call world, registry.IsAtomic call world) ∧
    ∀ calls world,
      let (outcome, after) := registry.runAll calls world
      ∃ trials : List (Trial (Option Value)), RunInOrder calls trials outcome ∧
        Trace registry.call world trials after ∧
        registry.completed calls world =
          (trials.filter fun trial => trial.outcome.isOk).map Trial.call ∧
        after.store = (registry.completed calls world).foldl registry.effect world.store ∧
        ∀ record, registry.recording.runAll calls (world.recording record) =
          (outcome, after.recording
            (record ++ registry.invocations (trials.map Trial.call) world.store)) := by
  refine ⟨registry.isAtomic, fun calls world => ?_⟩
  obtain ⟨trials, ran, trace⟩ := registry.exists_runInOrder calls world
  obtain ⟨completed, stored⟩ := completed_of_runInOrder ran trace
  refine ⟨trials, ran, trace, completed, stored, fun record => ?_⟩
  have recorded := trace.recording registry.store_call registry.call_recording record
  exact runAll_of_runInOrder ran recorded

end Registry

/-- Commands of a host with a bell that rings, and with one that is jammed. -/
def bellRegistry : Registry Nat :=
  (Registry.builtin.register "Ring" [] none fun _ rings => (.ok none, rings + 1)).register
    "Jam" [] none fun _ rings => (.error "stuck", rings)

/-- A variable takes the value of another and keeps it when it is assigned to itself.  The call
that fails is seen by the host, the calls behind it are not. -/
theorem runInOrder_of_jammed_bell :
    let calls : List Call := [⟨"=", [.reference "x", .literal (.integer 1)]⟩, ⟨"Ring", []⟩,
      ⟨"=", [.reference "y", .reference "x"]⟩, ⟨"=", [.reference "y", .reference "y"]⟩,
      ⟨"Jam", []⟩, ⟨"=", [.reference "x", .literal (.integer 2)]⟩, ⟨"Ring", []⟩]
    ∃ trials, RunInOrder calls trials (.error (.commandFailed "Jam" "stuck")) ∧
      (trials.filter fun trial => trial.outcome.isOk).map Trial.call = calls.take 4 ∧
      bellRegistry.invocations (trials.map Trial.call) .empty = [⟨"Ring", []⟩, ⟨"Jam", []⟩] ∧
      ((calls.take 4).foldl bellRegistry.effect .empty).entries =
        [("x", .integer 1), ("y", .integer 1)] := by
  intro calls
  let world : World Nat := ⟨.empty, 0⟩
  obtain ⟨trials, ran, -, completed, -, records⟩ :=
    bellRegistry.runs_atomic_calls_in_order.2 calls world
  have fails : (bellRegistry.runAll calls world).1 = .error (.commandFailed "Jam" "stuck") := by
    decide +kernel
  have first : bellRegistry.completed calls world = calls.take 4 := by decide +kernel
  have noted : (bellRegistry.recording.runAll calls (world.recording [])).2.host.record =
      [⟨"Ring", []⟩, ⟨"Jam", []⟩] := by decide +kernel
  refine ⟨trials, fails ▸ ran, completed ▸ first, ?_, by decide +kernel⟩
  rw [← noted]
  exact (congrArg (fun run => run.2.host.record) (records [])).symm

end Parley
