import Parley.Proofs.Script.Accepted

/-!
# Typed calls do not fail

The check of a call looks at types alone: at those of the variables and at the
signature of the command.  Where the variables have the types that the check went
by, a call that passed it runs without failing, gives a result of the declared
type, and leaves the variables with their types.  The commands of the host have to
keep to their signatures for that, and an assignment has to keep the type of its
target.
-/

namespace Parley

open Parley.Script

/-- A map made of entries has no others. -/
theorem NameMap.mem_of_get?_insertAll {α : Type} {map : NameMap α} {entries : List (String × α)}
    {name : String} {value : α} (found : (map.insertAll entries).get? name = some value) :
    (name, value) ∈ entries ∨ map.get? name = some value := by
  induction entries generalizing map with
  | nil => exact Or.inr found
  | cons entry rest ih =>
      rcases ih found with member | earlier
      · exact Or.inl (List.mem_cons_of_mem _ member)
      · rw [get?_insert] at earlier
        split at earlier
        · rename_i same
          cases earlier
          exact Or.inl (same ▸ List.mem_cons_self)
        · exact Or.inr earlier

variable {σ : Type}

/-! ## Registries -/

/-- A command that, where it applies a function of the host to arguments which its
signature accepts, gives a result of the declared type. -/
def Command.IsHonest (command : Command σ) : Prop :=
  ∀ function, command.action = .apply function → ∀ values host,
    command.signature.accepts (values.map Value.type) = true →
      ∃ result, (function values host).1 = .ok result ∧
        result.map Value.type = command.signature.result

namespace Registry

/-- A registry that a host can make: the built-in commands and commands of its own,
which may take the place of others. -/
inductive Built : Registry σ → Prop
  | builtin : Built builtin
  | register {registry : Registry σ} (name : String) (parameters : List Parameter)
      (result : Option DataType) (function : HostFunction σ) (built : Built registry) :
      Built (registry.register name parameters result function)

/-- A registry of honest commands. -/
def IsHonest (registry : Registry σ) : Prop :=
  ∀ name command, registry.get? name = some command → command.IsHonest

variable {registry : Registry σ}

/-- The built-in commands: the assignment, the comparisons and the tests. -/
theorem builtin_cases {name : String} {command : Command σ}
    (found : builtin.get? name = some command) :
    (name = Command.assignName ∧ command = Command.assignment) ∨
      (∃ comparison : Comparison, name = comparison.symbol ∧
        command = Command.ofComparison comparison) ∨
      ∃ test, command = Command.ofTest test := by
  rcases NameMap.mem_of_get?_insertAll found with member | none
  · rcases List.mem_append.mp member with compares | other
    · obtain ⟨comparison, _, same⟩ := List.mem_map.mp compares
      cases same
      exact Or.inr (Or.inl ⟨comparison, rfl, rfl⟩)
    · simp only [List.mem_cons, List.not_mem_nil, or_false] at other
      rcases other with same | same | same
      · cases same
        exact Or.inr (Or.inr ⟨_, rfl⟩)
      · cases same
        exact Or.inr (Or.inr ⟨_, rfl⟩)
      · cases same
        exact Or.inl ⟨rfl, rfl⟩
  · cases none

/-- The assignment and the comparisons are found at their own names only; every
other command applies a function. -/
theorem Built.cases (built : Built registry) {name : String} {command : Command σ}
    (found : registry.get? name = some command) :
    (name = Command.assignName ∧ command = Command.assignment) ∨
      (∃ comparison : Comparison, name = comparison.symbol ∧
        command = Command.ofComparison comparison) ∨
      ∃ function, command.action = .apply function := by
  induction built with
  | builtin =>
      rcases builtin_cases found with assigns | compares | ⟨test, rfl⟩
      · exact Or.inl assigns
      · exact Or.inr (Or.inl compares)
      · exact Or.inr (Or.inr ⟨_, rfl⟩)
  | register other parameters result function _ ih =>
      rw [Registry.register, NameMap.get?_insert] at found
      split at found
      · cases found
        exact Or.inr (Or.inr ⟨function, rfl⟩)
      · exact ih found

/-- No command is an assignment but the one at the name of assignments. -/
theorem Built.action_ne_assign (built : registry.Built) {name : String} {command : Command σ}
    (found : registry.get? name = some command) (other : name ≠ Command.assignName) :
    command.action ≠ .assign := by
  intro assigns
  rcases built.cases found with ⟨named, -⟩ | ⟨comparison, -, rfl⟩ | ⟨function, applies⟩
  · exact other named
  · cases assigns
  · rw [applies] at assigns
    cases assigns

/-- The built-in commands are honest. -/
theorem isHonest_builtin : (builtin : Registry σ).IsHonest := by
  intro name command found function acts values host accepted
  rcases builtin_cases found with ⟨_, rfl⟩ | ⟨comparison, _, rfl⟩ | ⟨test, rfl⟩
  · cases acts
  · cases acts
  · cases acts
    -- A test takes two values.
    rcases values with _ | ⟨left, _ | ⟨right, _ | ⟨third, rest⟩⟩⟩
    · cases accepted
    · cases accepted
    · exact ⟨_, rfl, rfl⟩
    · cases accepted

/-- Adding an honest command keeps a registry honest. -/
theorem IsHonest.register (honest : registry.IsHonest) {name : String}
    {parameters : List Parameter} {result : Option DataType} {function : HostFunction σ}
    (keeps : (Command.ofFunction parameters result function).IsHonest) :
    (registry.register name parameters result function).IsHonest := by
  intro other command found
  rw [Registry.register, NameMap.get?_insert] at found
  split at found
  · cases found
    exact keeps
  · exact honest other command found

end Registry

/-! ## Variables and arguments -/

/-- The type of an argument where variables have the types of a store. -/
def Argument.typeIn (store : Store) : Argument → Option DataType
  | .literal value => some value.type
  | .reference name => Store.typeOf? store name

theorem Argument.typeIn_of_typeOf {registry : Registry σ} {store : Store} {argument : Argument}
    {type : DataType} (typed : (Scope.ofWorld registry store).typeOf argument = .ok type) :
    argument.typeIn store = some type := by
  cases argument with
  | literal value =>
      cases typed
      rfl
  | reference name =>
      simp only [Scope.typeOf, Scope.ofWorld] at typed
      split at typed
      · rename_i found
        cases typed
        exact found
      · cases typed

/-- Variables that have the types of a scope. -/
def Store.Fits (scope : Scope) (store : Store) : Prop :=
  ∀ name, Store.typeOf? store name = scope.type? name

namespace Store.Fits

variable {scope : Scope} {store : Store}

/-- Setting a variable to a value of its type keeps all types. -/
theorem insert (fits : Store.Fits scope store) {name : String} {value : Value}
    (typed : scope.type? name = some value.type) : Store.Fits scope (store.insert name value) := by
  intro other
  rw [Store.typeOf?, NameMap.get?_insert]
  split
  · rename_i same
    rw [same, typed]
    rfl
  · exact fits other

/-- An argument that has a type has a value of that type. -/
theorem value (fits : Store.Fits scope store) {argument : Argument} {type : DataType}
    (typed : scope.typeOf argument = .ok type) :
    ∃ value, argument.value store = .ok value ∧ value.type = type := by
  cases argument with
  | literal value =>
      cases typed
      exact ⟨value, rfl, rfl⟩
  | reference name =>
      simp only [Scope.typeOf, ← fits name, Store.typeOf?] at typed
      rcases found : store.get? name with _ | value
      · rw [found] at typed
        cases typed
      · rw [found] at typed
        cases typed
        exact ⟨value, Store.read_eq_ok_iff.mpr found, rfl⟩

/-- Arguments that have types have values of those types. -/
theorem values (fits : Store.Fits scope store) {arguments : List Argument}
    {types : List DataType} (typed : scope.typesOf arguments = .ok types) :
    ∃ values, Argument.valuesOf store arguments = .ok values ∧ values.map Value.type = types := by
  induction arguments generalizing types with
  | nil =>
      cases typed
      exact ⟨[], rfl, rfl⟩
  | cons argument rest ih =>
      obtain ⟨type, others, first, typedRest, rfl⟩ := mapM_cons_eq_ok_iff.mp typed
      obtain ⟨value, found, rfl⟩ := fits.value first
      obtain ⟨values, foundRest, rfl⟩ := ih typedRest
      exact ⟨value :: values, mapM_cons_eq_ok_iff.mpr ⟨_, _, found, foundRest, rfl⟩, rfl⟩

end Store.Fits

/-! ## Calls -/

/-- What the check of a call makes sure of. -/
theorem Script.Scope.check_eq_ok_iff {scope : Scope} {call : Call} :
    scope.check call = .ok () ↔
      ∃ signature types, scope.signature call.name = .ok signature ∧
        scope.typesOf call.arguments = .ok types ∧ signature.accepts types = true ∧
        Scope.checkComparison call.name types = .ok () := by
  simp only [Scope.check, bind_eq_ok_iff]
  constructor
  · rintro ⟨signature, known, types, typed, _, accepted, compared⟩
    exact ⟨signature, types, known, typed, Signature.check_eq_ok_iff.mp accepted, compared⟩
  · rintro ⟨signature, types, known, typed, accepted, compared⟩
    exact ⟨signature, known, types, typed, (), Signature.check_eq_ok_iff.mpr accepted, compared⟩

/-- Two numbers of one type can be compared. -/
theorem Comparison.exists_verdict (comparison : Comparison) {left right : Value}
    (numeric : left.type.isNumeric = true) (same : left.type = right.type) :
    ∃ verdict, comparison.verdict? [left, right] = some verdict := by
  cases left with
  | integer first =>
      cases right with
      | integer second => exact ⟨_, rfl⟩
      | _ => cases same
  | float first =>
      cases right with
      | float second =>
          simp only [verdict?]
          split <;> exact ⟨_, rfl⟩
      | _ => cases same
  | _ => cases numeric

namespace Command

variable {command : Command σ} {name : String} {arguments : List Argument} {world : World σ}
  {values : List Value}

/-- Accepted arguments are handed on as they are. -/
theorem argumentValues_of_accepts
    (found : Argument.valuesOf world.store arguments = .ok values)
    (accepted : command.signature.accepts (values.map Value.type) = true) :
    command.argumentValues name arguments world.store = .ok values := by
  apply bind_eq_ok_iff.mpr
  refine ⟨values, found, bind_eq_ok_iff.mpr ⟨(), ?_, rfl⟩⟩
  exact Signature.check_eq_ok_iff.mpr accepted

/-- An honest function gives what it declares and leaves the variables alone. -/
theorem run_of_isHonest (honest : command.IsHonest) {function : HostFunction σ}
    (acts : command.action = .apply function)
    (found : Argument.valuesOf world.store arguments = .ok values)
    (accepted : command.signature.accepts (values.map Value.type) = true) :
    ∃ result, (command.run name arguments world).1 = .ok result ∧
      result.map Value.type = command.signature.result ∧
      (command.run name arguments world).2.store = world.store := by
  obtain ⟨result, gives, typed⟩ := honest function acts values world.host accepted
  refine ⟨result, ?_, typed, ?_⟩
  · unfold run
    rw [acts]
    dsimp only
    rw [argumentValues_of_accepts found accepted]
    dsimp only
    rw [gives, settle, if_pos typed]
  · unfold run
    rw [acts]
    dsimp only
    rw [argumentValues_of_accepts found accepted]

/-- A comparison of two numbers of one type gives a truth value. -/
theorem run_ofComparison {comparison : Comparison}
    (found : Argument.valuesOf world.store arguments = .ok values)
    (accepted : (ofComparison comparison : Command σ).signature.accepts
      (values.map Value.type) = true)
    (compared : Scope.checkComparison comparison.symbol (values.map Value.type) = .ok ()) :
    ∃ verdict, (ofComparison comparison : Command σ).run name arguments world =
      (.ok (some (.boolean verdict)), world) := by
  rcases values with _ | ⟨left, _ | ⟨right, _ | ⟨third, rest⟩⟩⟩
  · cases accepted
  · simp [Signature.accepts, Signature.acceptsAll, ofComparison] at accepted
  · have numeric : left.type.isNumeric = true := by
      simp only [Signature.accepts, ofComparison, List.map_cons, Signature.acceptsAll,
        Bool.and_eq_true] at accepted
      exact accepted.1
    have same : left.type = right.type := by
      by_cases same : left.type = right.type
      · exact same
      · have named : Scope.isComparison comparison.symbol = true := by
          cases comparison <;> rfl
        simp [Scope.checkComparison, named, same] at compared
    obtain ⟨verdict, decided⟩ := Comparison.exists_verdict comparison numeric same
    refine ⟨verdict, ?_⟩
    have given : (ofComparison comparison : Command σ).argumentValues name arguments world.store =
        .ok [left, right] := argumentValues_of_accepts found accepted
    simp only [run, ofComparison] at given ⊢
    rw [given]
    dsimp only
    rw [decided]
  · simp [Signature.accepts, Signature.acceptsAll, ofComparison] at accepted

/-- An assignment that names its target sets it. -/
theorem run_assignment {target : String} {source : Argument} {value : Value}
    (found : source.value world.store = .ok value) :
    (assignment : Command σ).run name [.reference target, source] world =
      (.ok none, { world with store := world.store.insert target value }) := by
  simp only [run, assignment, found]

end Command

namespace Registry

variable {registry : Registry σ} {store : Store} {call : Call} {world : World σ}

/-- A name with a signature is that of a registered command. -/
theorem exists_of_signature {name : String} {signature : Signature}
    (known : (Scope.ofWorld registry store).signature name = .ok signature) :
    ∃ command, registry.get? name = some command ∧ command.signature = signature := by
  simp only [Scope.signature, Scope.ofWorld, Registry.signature?] at known
  rcases found : registry.get? name with _ | command
  · rw [found] at known
    cases known
  · rw [found] at known
    cases known
    exact ⟨command, rfl, rfl⟩

/-- A checked call runs without failing, gives a result of the declared type and
keeps the types of the variables. -/
theorem call_of_check (built : registry.Built) (honest : registry.IsHonest)
    (fits : Store.Fits (Scope.ofWorld registry store) world.store)
    (checked : (Scope.ofWorld registry store).check call = .ok ())
    (assigns : registry.get? call.name = some Command.assignment →
      ∃ target source, call.arguments = [.reference target, source] ∧
        source.typeIn store = Store.typeOf? store target) :
    ∃ result signature, (registry.call call world).1 = .ok result ∧
      (Scope.ofWorld registry store).signature call.name = .ok signature ∧
      result.map Value.type = signature.result ∧
      Store.Fits (Scope.ofWorld registry store) (registry.call call world).2.store := by
  obtain ⟨signature, types, known, typed, accepted, compared⟩ :=
    Scope.check_eq_ok_iff.mp checked
  obtain ⟨command, registered, rfl⟩ := exists_of_signature known
  obtain ⟨values, found, rfl⟩ := fits.values typed
  have runs : registry.call call world = command.run call.name call.arguments world := by
    simp only [Registry.call, perform, registered]
  rw [runs]
  rcases built.cases registered with ⟨_, rfl⟩ | ⟨comparison, named, rfl⟩ | ⟨function, acts⟩
  · -- The assignment keeps the type of its target.
    obtain ⟨target, source, argumentsEq, same⟩ := assigns registered
    rw [argumentsEq] at typed ⊢
    obtain ⟨targetType, _, typedTarget, typedSource, _⟩ := mapM_cons_eq_ok_iff.mp typed
    obtain ⟨sourceType, _, typedFirst, _, _⟩ := mapM_cons_eq_ok_iff.mp typedSource
    obtain ⟨value, valueFound, rfl⟩ := fits.value typedFirst
    rw [Command.run_assignment valueFound]
    refine ⟨none, _, rfl, known, rfl, fits.insert ?_⟩
    rw [Argument.typeIn_of_typeOf typedFirst] at same
    exact same.symm
  · rw [named] at compared
    obtain ⟨verdict, gives⟩ := Command.run_ofComparison found accepted compared
    rw [gives]
    exact ⟨_, _, rfl, known, rfl, fits⟩
  · obtain ⟨result, gives, resultTyped, storeEq⟩ :=
      Command.run_of_isHonest (honest _ _ registered) acts found accepted
    refine ⟨result, _, gives, known, resultTyped, ?_⟩
    rw [storeEq]
    exact fits

end Registry

end Parley
