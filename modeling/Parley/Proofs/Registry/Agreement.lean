import Parley.Proofs.Registry.Fault
import Parley.Proofs.Registry.Typed

/-!
# What passes the check is not refused

A call is checked against types when a script is read, and against values when it is run.  The
two agree, down to the fault, but for one thing: the check knows a comparison by its name, and
running knows it by what the command does.  So where a host has given the name of a comparison
to a function of its own, the check still refuses arguments of two different types, although
the function takes them.
-/

namespace Parley

open Parley.Script

variable {σ : Type}

namespace Registry

/-- A call that is run in a world is refused with a fault. -/
def Refuses (registry : Registry σ) (call : Call) (world : World σ) (fault : Fault) : Prop :=
  fault.IsRefusal ∧ (registry.call call world).1 = .error fault

/-- A call passes its check exactly if it is not refused when it is run at once. -/
def Agrees (registry : Registry σ) (call : Call) (world : World σ) : Prop :=
  (Scope.ofWorld registry world.store).check call = .ok () ↔
    ∀ fault, ¬ registry.Refuses call world fault

/-- A call by the name of a comparison which a host has given to a function of its own, with two
arguments of different types that the function takes. -/
def ComparesAcross (registry : Registry σ) (call : Call) (store : Store) : Prop :=
  Scope.isComparison call.name = true ∧
    ∃ command function left right, registry.get? call.name = some command ∧
      command.action = .apply function ∧
      (Scope.ofWorld registry store).typesOf call.arguments = .ok [left, right] ∧
      command.signature.accepts [left, right] = true ∧ left ≠ right

end Registry

variable {registry : Registry σ} {store : Store} {world : World σ} {command : Command σ}
  {call : Call} {fault : Fault}

/-! ## Checks of calls -/

namespace Script.Scope

/-- The type of an argument is that of its value.  An argument without a value has no type for
the same reason. -/
theorem typeOf_ofWorld (argument : Argument) :
    (ofWorld registry store).typeOf argument = (argument.value store).map Value.type := by
  cases argument with
  | literal value => rfl
  | reference name =>
      simp only [typeOf, ofWorld, Store.typeOf?, Argument.value, Store.read]
      cases store.get? name <;> rfl

theorem typesOf_ofWorld (arguments : List Argument) :
    (ofWorld registry store).typesOf arguments =
      (Argument.valuesOf store arguments).map (List.map Value.type) := by
  induction arguments with
  | nil => rfl
  | cons argument rest ih =>
      simp only [typesOf, Argument.valuesOf] at ih ⊢
      rw [List.mapM_cons, List.mapM_cons, typeOf_ofWorld, ih]
      rcases argument.value store with fault | value
      · rfl
      · rcases rest.mapM (Argument.value store) with fault | values <;> rfl

theorem check_of_get?_eq_none (unknown : registry.get? call.name = none) :
    (ofWorld registry store).check call = .error (.unknownCommand call.name) := by
  simp only [check, signature, ofWorld, Registry.signature?, unknown]
  rfl

/-- To check a call is to look for the values that its command is to get, and then at their
types once more if the call has the name of a comparison. -/
theorem check_of_get?_eq_some (found : registry.get? call.name = some command) :
    (ofWorld registry store).check call =
      (command.argumentValues call.name call.arguments store).bind fun values =>
        checkComparison call.name (values.map Value.type) := by
  have known : (ofWorld registry store).signature call.name = .ok command.signature := by
    simp only [signature, ofWorld, Registry.signature?, found, Option.map_some]
  simp only [check, known, typesOf_ofWorld, Command.argumentValues, ok_bind]
  rcases Argument.valuesOf store call.arguments with fault | values
  · rfl
  · show (command.signature.check _ _ >>= _) = (command.signature.check _ _ >>= _).bind _
    rcases command.signature.check call.name (values.map Value.type) with fault | passed <;> rfl

/-- By its name a comparison does not pass with two different types. -/
theorem checkComparison_eq_error_iff {name : String} {types : List DataType} :
    checkComparison name types = .error fault ↔
      isComparison name = true ∧ (∃ left right, types = [left, right] ∧ left ≠ right) ∧
        fault = .signatureMismatch name Command.sameNumbers (DataType.describe types) := by
  constructor
  · intro failed
    unfold checkComparison at failed
    split at failed
    · rename_i left right
      split at failed
      · rename_i across
        cases failed
        exact ⟨across.1, ⟨left, right, rfl, across.2⟩, rfl⟩
      · cases failed
    · cases failed
  · rintro ⟨named, ⟨left, right, rfl, different⟩, rfl⟩
    exact if_pos ⟨named, different⟩

end Script.Scope

/-! ## Runs of commands -/

/-- Two numbers of different types cannot be compared. -/
theorem Comparison.verdict?_eq_none (comparison : Comparison) {left right : Value}
    (different : left.type ≠ right.type) : comparison.verdict? [left, right] = none := by
  cases left <;> cases right <;> first | rfl | exact absurd rfl different

namespace Command

variable {name : String} {arguments : List Argument} {values : List Value}

theorem accepts_of_argumentValues
    (given : command.argumentValues name arguments store = .ok values) :
    command.signature.accepts (values.map Value.type) = true ∧
      Argument.valuesOf store arguments = .ok values := by
  obtain ⟨found, valued, checked⟩ := bind_eq_ok_iff.mp given
  obtain ⟨passed, accepted, same⟩ := bind_eq_ok_iff.mp checked
  cases same
  exact ⟨Signature.check_eq_ok_iff.mp accepted, valued⟩

/-- A command other than the assignment is carried out only with the arguments that it is to
get. -/
theorem run_of_argumentValues_eq_error (acts : command.action ≠ .assign)
    (failed : command.argumentValues name arguments world.store = .error fault) :
    command.run name arguments world = (.error fault, world) := by
  unfold run
  split
  · contradiction
  · rw [failed]
  · rw [failed]

/-- A function of a host that has got its arguments does not refuse them any more. -/
theorem not_isRefusal_of_run {function : HostFunction σ} (acts : command.action = .apply function)
    (given : command.argumentValues name arguments world.store = .ok values)
    (failed : (command.run name arguments world).1 = .error fault) : ¬ fault.IsRefusal := by
  simp only [run, acts, given] at failed
  unfold settle at failed
  split at failed
  · cases failed
    rintro ⟨⟩
  · dsimp only at failed
    split at failed
    · cases failed
    · cases failed
      rintro ⟨⟩

/-- A comparison that has got its arguments does with them what the check of its name does. -/
theorem run_ofComparison_map {comparison : Comparison}
    (given : (ofComparison comparison : Command σ).argumentValues comparison.symbol arguments
      world.store = .ok values) :
    ((ofComparison comparison).run comparison.symbol arguments world).1.map (fun _ => ()) =
      Scope.checkComparison comparison.symbol (values.map Value.type) := by
  rcases compared : Scope.checkComparison comparison.symbol (values.map Value.type) with
    fault | passed
  · obtain ⟨-, ⟨first, second, types, different⟩, rfl⟩ :=
      Scope.checkComparison_eq_error_iff.mp compared
    obtain ⟨left, rest, rfl, rfl, others⟩ := List.map_eq_cons_iff.mp types
    obtain ⟨right, rfl, rfl⟩ := List.map_eq_singleton_iff.mp others
    have none := comparison.verdict?_eq_none different
    simp only [ofComparison] at given
    simp only [run, ofComparison, given, none]
    rfl
  · obtain ⟨accepted, found⟩ := accepts_of_argumentValues given
    have gives : ∃ verdict, (ofComparison comparison).run comparison.symbol arguments world =
        (.ok (some (.boolean verdict)), world) := run_ofComparison found accepted compared
    obtain ⟨verdict, gives⟩ := gives
    rw [gives]
    rfl

/-- So it refuses exactly those that do not pass, and for the same reason. -/
theorem refuses_ofComparison_iff {comparison : Comparison}
    (given : (ofComparison comparison : Command σ).argumentValues comparison.symbol arguments
      world.store = .ok values) :
    (fault.IsRefusal ∧
        ((ofComparison comparison).run comparison.symbol arguments world).1 = .error fault) ↔
      Scope.checkComparison comparison.symbol (values.map Value.type) = .error fault := by
  rw [← run_ofComparison_map given, map_eq_error_iff, and_iff_right_iff_imp]
  intro failed
  have refused := run_ofComparison_map given
  rw [failed] at refused
  obtain ⟨-, -, rfl⟩ := Scope.checkComparison_eq_error_iff.mp refused.symm
  exact .mismatch _ _ _

end Command

/-! ## Calls -/

namespace Registry

theorem call_of_get?_eq_some (found : registry.get? call.name = some command) :
    registry.call call world = command.run call.name call.arguments world := by
  simp only [Registry.call, perform, found]

/-- A call compares across exactly if a function of the host has the name of a comparison, gets
its arguments, and does not pass the check of its name. -/
theorem comparesAcross_iff (found : registry.get? call.name = some command) :
    registry.ComparesAcross call store ↔ (∃ function, command.action = .apply function) ∧
      ∃ values, command.argumentValues call.name call.arguments store = .ok values ∧
        ∃ fault, Scope.checkComparison call.name (values.map Value.type) = .error fault := by
  constructor
  · rintro ⟨named, other, function, left, right, registered, acts, typed, accepted, different⟩
    rw [found] at registered
    cases registered
    rw [Scope.typesOf_ofWorld] at typed
    rcases valued : Argument.valuesOf store call.arguments with fault | values
    · rw [valued] at typed
      cases typed
    · rw [valued] at typed
      have types : values.map Value.type = [left, right] := Except.ok.inj typed
      rw [← types] at accepted
      refine ⟨⟨function, acts⟩, values, ?_, ?_⟩
      · simp only [Command.argumentValues, valued, ok_bind,
          Signature.check_eq_ok_iff.mpr accepted]
        rfl
      · exact ⟨_, Scope.checkComparison_eq_error_iff.mpr
          ⟨named, ⟨left, right, types, different⟩, rfl⟩⟩
  · rintro ⟨⟨function, acts⟩, values, given, fault, refused⟩
    obtain ⟨named, ⟨left, right, types, different⟩, -⟩ :=
      Scope.checkComparison_eq_error_iff.mp refused
    obtain ⟨accepted, valued⟩ := Command.accepts_of_argumentValues given
    rw [types] at accepted
    refine ⟨named, command, function, left, right, found, acts, ?_, accepted, different⟩
    rw [Scope.typesOf_ofWorld, valued, ← types]
    rfl

/-- A call is refused exactly if it does not pass its check, and for the same reason, unless it
compares across. -/
theorem refuses_iff (built : registry.Built) (other : call.name ≠ Command.assignName) :
    registry.Refuses call world fault ↔
      (Scope.ofWorld registry world.store).check call = .error fault ∧
        ¬ registry.ComparesAcross call world.store := by
  rcases found : registry.get? call.name with _ | command
  · have fails : (registry.call call world).1 = .error (.unknownCommand call.name) := by
      simp only [Registry.call, perform, found]
    have apart : ¬ registry.ComparesAcross call world.store := by
      rintro ⟨-, command, -, -, -, registered, -⟩
      rw [found] at registered
      cases registered
    rw [Refuses, fails, Scope.check_of_get?_eq_none found]
    constructor
    · rintro ⟨-, ⟨⟩⟩
      exact ⟨rfl, apart⟩
    · rintro ⟨⟨⟩, -⟩
      exact ⟨.unknown call.name, rfl⟩
  · rw [Refuses, call_of_get?_eq_some found, Scope.check_of_get?_eq_some found,
      comparesAcross_iff found]
    rcases given : command.argumentValues call.name call.arguments world.store with
      missing | values
    · have acts := built.action_ne_assign found other
      rw [Command.run_of_argumentValues_eq_error acts given]
      constructor
      · rintro ⟨-, ⟨⟩⟩
        exact ⟨rfl, by simp⟩
      · rintro ⟨⟨⟩, -⟩
        exact ⟨Command.isRefusal_of_argumentValues given, rfl⟩
    · dsimp only [Except.bind]
      rcases built.cases found with ⟨named, -⟩ | ⟨comparison, named, rfl⟩ | ⟨function, acts⟩
      · exact absurd named other
      · -- A comparison looks at its arguments as the check of its name does.
        rw [named] at given ⊢
        rw [Command.refuses_ofComparison_iff given, iff_self_and]
        rintro - ⟨⟨function, ⟨⟩⟩, -⟩
      · -- A function takes what it gets, whatever the check of its name says.
        constructor
        · rintro ⟨refusal, failed⟩
          exact absurd refusal (Command.not_isRefusal_of_run acts given failed)
        · rintro ⟨refused, apart⟩
          exact absurd ⟨⟨function, acts⟩, values, rfl, fault, refused⟩ apart

/-- A call that compares across does not pass its check. -/
theorem ComparesAcross.exists_fault (across : registry.ComparesAcross call store) :
    ∃ fault, (Scope.ofWorld registry store).check call = .error fault := by
  obtain ⟨-, command, -, -, -, found, -⟩ := id across
  obtain ⟨-, values, given, fault, refused⟩ := (comparesAcross_iff found).mp across
  refine ⟨fault, ?_⟩
  rw [Scope.check_of_get?_eq_some found, given]
  exact refused

/-- A call other than an assignment is refused exactly with the fault for which it does not pass
its check, unless it compares across.  So whether it passes its check agrees with whether it is
refused exactly if it does not compare across: if the name of a comparison belongs to the
comparison, or the call has another name, or its arguments are of one type, or there are not two
of them, or the function of that name would not take them either. -/
theorem agrees_iff (built : registry.Built) (other : call.name ≠ Command.assignName)
    (world : World σ) :
    (∀ fault, registry.Refuses call world fault ↔
      (Scope.ofWorld registry world.store).check call = .error fault ∧
        ¬ registry.ComparesAcross call world.store) ∧
    (registry.Agrees call world ↔ ¬ registry.ComparesAcross call world.store) := by
  have refuses : ∀ fault, registry.Refuses call world fault ↔
      (Scope.ofWorld registry world.store).check call = .error fault ∧
        ¬ registry.ComparesAcross call world.store :=
    fun _ => refuses_iff built other
  refine ⟨refuses, ?_⟩
  constructor
  · intro agrees across
    obtain ⟨fault, failed⟩ := across.exists_fault
    have passed := agrees.mpr fun other refused => ((refuses other).mp refused).2 across
    rw [failed] at passed
    cases passed
  · intro apart
    constructor
    · intro passed fault refused
      have failed := ((refuses fault).mp refused).1
      rw [passed] at failed
      cases failed
    · intro unrefused
      rcases checked : (Scope.ofWorld registry world.store).check call with fault | passed
      · exact absurd ((refuses fault).mpr ⟨checked, apart⟩) (unrefused fault)
      · rfl

end Registry

/-! ## A comparison of anything -/

/-- Commands of a host that compares values of any types under the name of a built-in
comparison. -/
def comparingRegistry : Registry Unit :=
  Registry.builtin.register "<" [.any, .any] (some .boolean)
    fun _ host => (.ok (some (.boolean true)), host)

/-- A call of the built-in comparison is refused just as it does not pass its check. -/
theorem agrees_of_builtin_comparison :
    let world : World Unit := ⟨NameMap.ofList [("gold", .integer 3)], ()⟩
    let call : Call := ⟨">", [.reference "gold", .literal (.text "few")]⟩
    let mismatch : Fault := .signatureMismatch ">" "number, number" "integer, text"
    (Scope.ofWorld comparingRegistry world.store).check call = .error mismatch ∧
      comparingRegistry.Refuses call world mismatch ∧ comparingRegistry.Agrees call world := by
  intro world call mismatch
  have built : comparingRegistry.Built := .register _ _ _ _ .builtin
  have failed : (Scope.ofWorld comparingRegistry world.store).check call = .error mismatch := by
    decide +kernel
  have apart : ¬ comparingRegistry.ComparesAcross call world.store := by
    rintro ⟨-, command, function, -, -, found, acts, -⟩
    cases found
    cases acts
  have other : call.name ≠ Command.assignName := by decide
  obtain ⟨refuses, agrees⟩ := Registry.agrees_iff built other world
  exact ⟨failed, (refuses mismatch).mpr ⟨failed, apart⟩, agrees.mpr apart⟩

/-- A call of the host's comparison does not pass its check, although it is not refused. -/
theorem not_agrees_of_host_comparison :
    let world : World Unit := ⟨NameMap.ofList [("gold", .integer 3)], ()⟩
    let call : Call := ⟨"<", [.reference "gold", .literal (.text "few")]⟩
    (Scope.ofWorld comparingRegistry world.store).check call =
        .error (.signatureMismatch "<" Command.sameNumbers "integer, text") ∧
      (comparingRegistry.call call world).1 = .ok (some (.boolean true)) ∧
      ¬ comparingRegistry.Agrees call world := by
  intro world call
  have failed : (Scope.ofWorld comparingRegistry world.store).check call =
      .error (.signatureMismatch "<" Command.sameNumbers "integer, text") := by
    decide +kernel
  have runs : (comparingRegistry.call call world).1 = .ok (some (.boolean true)) := by
    decide +kernel
  refine ⟨failed, runs, fun agrees => ?_⟩
  have passed := agrees.mpr fun fault refused => by
    rw [Registry.Refuses, runs] at refused
    cases refused.2
  rw [failed] at passed
  cases passed

end Parley
