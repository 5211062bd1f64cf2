import Parley.Proofs.Registry.Effects

/-!
# What a host sees of calls

A host sees of a call only whether one of its functions is applied, and to which values.  Let
every function keep a record: it notes the name by which it is called and the values, and then
does what it did before.  A recording registry gives the same outcomes and does the same to the
variables and to the host, and what its record holds after calls that are made one after the
other can be read off these calls and the variables.
-/

namespace Parley

/-- An application of a function, as a host sees it. -/
structure Invocation where
  name : String
  values : List Value
  deriving DecidableEq

/-- The state of a host, with a record of the applications of its functions. -/
structure Recorded (σ : Type) where
  host : σ
  record : List Invocation

/-- A world with a record. -/
def World.recording {σ : Type} (world : World σ) (record : List Invocation) :
    World (Recorded σ) :=
  ⟨world.store, ⟨world.host, record⟩⟩

namespace NameMap

variable {α β : Type}

/-- Change every value of a map; the name is known. -/
def mapValues (map : NameMap α) (change : String → α → β) : NameMap β :=
  ⟨map.entries.map fun entry => (entry.1, change entry.1 entry.2),
    List.pairwise_map.mpr map.sorted⟩

@[simp]
theorem get?_mapValues (map : NameMap α) (change : String → α → β) (name : String) :
    (map.mapValues change).get? name = (map.get? name).map (change name) := by
  obtain ⟨entries, sorted⟩ := map
  show lookup name (entries.map _) = (lookup name entries).map _
  clear sorted
  induction entries with
  | nil => rfl
  | cons entry rest ih =>
      simp only [List.map_cons, lookup]
      split
      · rename_i same
        rw [same]
        rfl
      · exact ih

end NameMap

variable {σ α : Type}

/-- What a command does under a name, with a record of the applications of its function. -/
def Action.recording (name : String) : Action σ → Action (Recorded σ)
  | .assign => .assign
  | .compare comparison => .compare comparison
  | .apply function => .apply fun values state =>
      let (outcome, host) := function values state.host
      (outcome, ⟨host, state.record ++ [⟨name, values⟩]⟩)

namespace Command

/-- A command that keeps a record under a name. -/
def recording (name : String) (command : Command σ) : Command (Recorded σ) :=
  ⟨command.signature, command.action.recording name⟩

/-- The application of a function to which a call of a command leads: the command has a function,
and it gets its arguments. -/
def invocation? (command : Command σ) (name : String) (arguments : List Argument)
    (store : Store) : Option Invocation :=
  match command.action with
  | .assign | .compare _ => none
  | .apply _ =>
      match command.argumentValues name arguments store with
      | .error _ => none
      | .ok values => some ⟨name, values⟩

end Command

namespace Registry

/-- The same commands, whose functions keep a record. -/
def recording (registry : Registry σ) : Registry (Recorded σ) :=
  registry.mapValues Command.recording

/-- The application of a function to which a call leads. -/
def invocation? (registry : Registry σ) (call : Call) (store : Store) : Option Invocation :=
  (registry.get? call.name).bind fun command => command.invocation? call.name call.arguments store

/-- The variables after a call: an assignment sets its target, and nothing else is set. -/
def effect (registry : Registry σ) (store : Store) (call : Call) : Store :=
  match (registry.get? call.name).map Command.action with
  | some .assign => store.assign ⟨Command.assignName, call.arguments⟩
  | _ => store

/-- The applications of functions to which calls lead that are made one after the other. -/
def invocations (registry : Registry σ) : List Call → Store → List Invocation
  | [], _ => []
  | call :: rest, store =>
      (registry.invocation? call store).toList ++
        invocations registry rest (registry.effect store call)

end Registry

/-! ## One call -/

namespace Command

variable {command : Command σ} {name : String} {arguments : List Argument}

/-- An assignment sets its target if it completes, and nothing if it does not, under whatever
name it is called. -/
theorem store_run_of_assigns (acts : command.action = .assign) (world : World σ) :
    (command.run name arguments world).2.store =
      world.store.assign ⟨assignName, arguments⟩ := by
  simp only [run, acts, Store.assign, if_pos]
  rcases arguments with _ | ⟨_ | target, _ | ⟨source, _ | _⟩⟩
  case cons.reference.cons.nil =>
    dsimp only
    rcases source.value world.store with fault | value <;> rfl
  all_goals rfl

/-- A command that keeps a record does what it did before, and notes the application to which its
call leads. -/
theorem run_recording (command : Command σ) (name : String) (arguments : List Argument)
    (world : World σ) (record : List Invocation) :
    (command.recording name).run name arguments (world.recording record) =
      ((command.run name arguments world).1, (command.run name arguments world).2.recording
        (record ++ (command.invocation? name arguments world.store).toList)) := by
  have gets : (command.recording name).argumentValues name arguments
      (world.recording record).store = command.argumentValues name arguments world.store := rfl
  obtain ⟨signature, action⟩ := command
  cases action with
  | assign =>
      simp only [run, recording, Action.recording, invocation?]
      split
      · rename_i target source
        rcases found : source.value world.store with fault | value <;> simp [World.recording, found]
      · simp
  | compare comparison =>
      simp only [recording, Action.recording] at gets
      simp only [run, recording, Action.recording, invocation?, gets]
      split
      · simp
      · split <;> simp
  | apply function =>
      simp only [recording, Action.recording] at gets
      simp only [run, recording, Action.recording, invocation?, gets]
      rcases argumentValues ⟨signature, .apply function⟩ name arguments world.store with _ | values
      · simp
      · simp [World.recording]

end Command

namespace Registry

variable {registry : Registry σ}

/-- What a call does to the variables, whether or not it completes. -/
theorem store_call (registry : Registry σ) (call : Call) (world : World σ) :
    (registry.call call world).2.store = registry.effect world.store call := by
  simp only [Registry.call, perform, effect]
  rcases registry.get? call.name with _ | command
  · rfl
  · dsimp only [Option.map_some]
    split
    · rename_i assigns
      exact Command.store_run_of_assigns (Option.some.inj assigns) world
    · rename_i tests
      exact Command.store_run (fun assigns => tests (congrArg some assigns)) world

theorem call_recording (registry : Registry σ) (call : Call) (world : World σ)
    (record : List Invocation) :
    registry.recording.call call (world.recording record) =
      ((registry.call call world).1, (registry.call call world).2.recording
        (record ++ (registry.invocation? call world.store).toList)) := by
  simp only [Registry.call, perform, recording, NameMap.get?_mapValues, invocation?]
  rcases registry.get? call.name with _ | command
  · simp
  · exact command.run_recording call.name call.arguments world record

/-- Evaluating a condition does to the variables what its call does. -/
theorem store_holds (registry : Registry σ) (condition : Call) (world : World σ) :
    (registry.holds condition world).2.store = registry.effect world.store condition := by
  rw [← store_call]
  unfold holds
  split <;> rename_i ran <;> rw [ran]

theorem holds_recording (registry : Registry σ) (condition : Call) (world : World σ)
    (record : List Invocation) :
    registry.recording.holds condition (world.recording record) =
      ((registry.holds condition world).1, (registry.holds condition world).2.recording
        (record ++ (registry.invocation? condition world.store).toList)) := by
  unfold holds
  rw [call_recording]
  rcases registry.call condition world with ⟨fault | _ | (_ | _ | _ | _), after⟩ <;> rfl

end Registry

/-! ## Calls one after the other -/

/-- A call with what came of it. -/
structure Trial (α : Type) where
  call : Call
  outcome : Except Fault α

/-- Calls are made one after the other, each in the world that the one before it has left. -/
inductive Trace (make : Call → World σ → Except Fault α × World σ) :
    World σ → List (Trial α) → World σ → Prop
  | nil (world : World σ) : Trace make world [] world
  | cons {world between after : World σ} {trial : Trial α} {trials : List (Trial α)}
      (made : make trial.call world = (trial.outcome, between))
      (rest : Trace make between trials after) : Trace make world (trial :: trials) after

namespace Trace

variable {make : Call → World σ → Except Fault α × World σ} {world between after : World σ}
  {trials later : List (Trial α)}

/-- Calls in two parts are made one part after the other. -/
theorem append_iff : Trace make world (trials ++ later) after ↔
    ∃ between, Trace make world trials between ∧ Trace make between later after := by
  constructor
  · intro both
    induction trials generalizing world with
    | nil => exact ⟨world, .nil world, both⟩
    | cons trial trials ih =>
        cases both with
        | cons made rest =>
            obtain ⟨between, first, second⟩ := ih rest
            exact ⟨between, .cons made first, second⟩
  · rintro ⟨between, first, second⟩
    induction first with
    | nil => exact second
    | cons made _ ih => exact .cons made (ih second)

@[simp]
theorem nil_iff : Trace make world [] after ↔ after = world := by
  constructor
  · rintro ⟨⟩
    rfl
  · rintro rfl
    exact .nil after

@[simp]
theorem cons_iff {trial : Trial α} : Trace make world (trial :: trials) after ↔
    ∃ between, make trial.call world = (trial.outcome, between) ∧
      Trace make between trials after := by
  constructor
  · intro both
    cases both with
    | cons made rest => exact ⟨_, made, rest⟩
  · rintro ⟨between, made, rest⟩
    exact .cons made rest

/-- What came of a call is what comes of it in one of the worlds that are passed. -/
theorem exists_made (trace : Trace make world trials after) :
    ∀ trial ∈ trials, ∃ before, (make trial.call before).1 = trial.outcome := by
  induction trace with
  | nil => simp
  | @cons world between after trial trials made _ ih =>
      intro other member
      rcases List.mem_cons.mp member with rfl | member
      · exact ⟨world, congrArg Prod.fst made⟩
      · exact ih other member

/-- Calls that are recorded are the same calls, and the record holds the applications of functions
to which they lead, in order and nothing else. -/
theorem recording {registry : Registry σ}
    {makeRecorded : Call → World (Recorded σ) → Except Fault α × World (Recorded σ)}
    (writes : ∀ call world, (make call world).2.store = registry.effect world.store call)
    (records : ∀ call world record, makeRecorded call (world.recording record) =
      ((make call world).1, (make call world).2.recording
        (record ++ (registry.invocation? call world.store).toList)))
    (trace : Trace make world trials after) (record : List Invocation) :
    Trace makeRecorded (world.recording record) trials
      (after.recording (record ++ registry.invocations (trials.map Trial.call) world.store)) := by
  induction trace generalizing record with
  | nil world =>
      simp only [List.map_nil, Registry.invocations, List.append_nil]
      exact .nil _
  | @cons world between after trial trials made _ ih =>
      have recorded := records trial.call world record
      have written := writes trial.call world
      rw [made] at recorded written
      simp only [List.map_cons, Registry.invocations, ← written, ← List.append_assoc]
      exact .cons recorded (ih _)

end Trace

end Parley
