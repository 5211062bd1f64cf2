import Parley.Proofs.Compilation.Sound
import Parley.Proofs.Registry.Typed
import Parley.Proofs.Session.Safe

/-!
# Compiled scripts do not go wrong

A script is checked against the types of its variables.  Played with the commands
and the variables that it was checked against, it calls no command that does not
exist, passes no argument that is not accepted and tests nothing but truth values,
as long as the variables keep their types.  They do if every assignment of the script
keeps the type of its target and the host sets no variable to a value of another
type.
-/

namespace Parley

open Parley.Script

/-- The calls that are run as commands, of all lines and choices. -/
def Graph.commands (graph : Graph) : List Call :=
  graph.lines.toList.flatMap Line.commands ++ graph.choices.toList.flatMap Choice.commands

/-- Whether an assignment to a variable is one of a value of the variable's type. -/
def Call.keepsType (store : Store) (call : Call) : Bool :=
  match call.arguments with
  | [.reference target, source] => source.typeIn store == Store.typeOf? store target
  | _ => true

/-- Every assignment of a graph keeps the type that its target has in a store. -/
def Graph.KeepsTypes (graph : Graph) (store : Store) : Prop :=
  ∀ call ∈ graph.commands, call.name = Command.assignName → call.keepsType store = true

instance (graph : Graph) (store : Store) : Decidable (graph.KeepsTypes store) :=
  inferInstanceAs (Decidable (∀ call ∈ graph.commands, call.name = Command.assignName →
    call.keepsType store = true))

variable {σ : Type}

/-- A variable that a host sets has a value already, and the new one is of the same
type. -/
def Session.KeepsTypes (session : Session σ) (operation : Operation) : Prop :=
  ∀ name value, operation = .set name value →
    Store.typeOf? session.world.store name = some value.type

namespace Graph

variable {graph : Graph} {call : Call}

theorem mem_commands_of_line {id : LineIndex} (member : call ∈ (graph.line id).commands) :
    call ∈ graph.commands := by
  by_cases known : id < graph.lines.size
  · apply List.mem_append_left
    apply List.mem_flatMap.mpr
    refine ⟨graph.line id, ?_, member⟩
    simp only [line, Array.getD_eq_getD_getElem?, known, getElem?_pos, Option.getD_some]
    exact Array.getElem_mem_toList known
  · rw [graph.line_eq_relay (Nat.le_of_not_lt known)] at member
    cases member

theorem mem_commands_of_choice {id : ChoiceIndex} (member : call ∈ (graph.choice id).commands) :
    call ∈ graph.commands := by
  by_cases known : id < graph.choices.size
  · apply List.mem_append_right
    apply List.mem_flatMap.mpr
    refine ⟨graph.choice id, ?_, member⟩
    simp only [choice, Array.getD_eq_getD_getElem?, known, getElem?_pos, Option.getD_some]
    exact Array.getElem_mem_toList known
  · simp only [choice, Array.getD_eq_getD_getElem?, known, not_false_eq_true, getElem?_neg,
      Option.getD_none] at member
    cases member

end Graph

/-- The variables of a world have the types that they have in a store. -/
def World.Fits (registry : Registry σ) (store : Store) (world : World σ) : Prop :=
  Store.Fits (Scope.ofWorld registry store) world.store

namespace Registry

variable {registry : Registry σ} {store : Store} {call : Call}

/-- Only a call of the name of assignments assigns. -/
theorem Built.eq_assignName (built : registry.Built) {name : String}
    (found : registry.get? name = some Command.assignment) : name = Command.assignName := by
  rcases built.cases found with ⟨named, _⟩ | ⟨comparison, _, same⟩ | ⟨function, acts⟩
  · exact named
  · cases congrArg Command.action same
  · cases acts

/-- A command that was checked does not fail. -/
theorem safeCommand_of_accepts (built : registry.Built) (honest : registry.IsHonest)
    (accepted : (Scope.ofWorld registry store).Accepts call)
    (keeps : call.name = Command.assignName → call.keepsType store = true)
    (allowed : Fault → Prop) :
    registry.SafeCommand (World.Fits registry store) allowed call := by
  intro world fits
  have assigns : registry.get? call.name = some Command.assignment →
      ∃ target source, call.arguments = [.reference target, source] ∧
        source.typeIn store = Store.typeOf? store target := by
    intro found
    have named := built.eq_assignName found
    obtain ⟨target, source, argumentsEq⟩ := accepted.assigns named
    have typed := keeps named
    simp only [Call.keepsType, argumentsEq, beq_iff_eq] at typed
    exact ⟨target, source, argumentsEq, typed⟩
  obtain ⟨result, signature, gives, _, _, fitsAfter⟩ :=
    call_of_check built honest fits accepted.checked assigns
  constructor
  · exact fitsAfter
  · intro fault failed
    rw [gives] at failed
    cases failed

/-- A condition that was checked gives a truth value. -/
theorem safeCondition_of_acceptsCondition (built : registry.Built) (honest : registry.IsHonest)
    (accepted : (Scope.ofWorld registry store).AcceptsCondition call)
    (allowed : Fault → Prop) :
    registry.SafeCondition (World.Fits registry store) allowed call := by
  intro world fits
  obtain ⟨boolean, known, isBoolean⟩ := bind_eq_ok_iff.mp accepted.boolean
  have resultBoolean : boolean.result = some .boolean := by
    by_cases same : boolean.result = some .boolean
    · exact same
    · rw [if_neg same] at isBoolean
      cases isBoolean
  -- An assignment gives nothing, so it is no condition.
  have assigns : registry.get? call.name = some Command.assignment →
      ∃ target source, call.arguments = [.reference target, source] ∧
        source.typeIn store = Store.typeOf? store target := by
    intro found
    obtain ⟨command, registered, same⟩ := exists_of_signature known
    rw [found] at registered
    cases registered
    rw [← same] at resultBoolean
    cases resultBoolean
  obtain ⟨result, signature, gives, knownAgain, typed, fitsAfter⟩ :=
    call_of_check built honest fits accepted.checked assigns
  rw [known] at knownAgain
  cases knownAgain
  rw [resultBoolean] at typed
  simp only [holds]
  rcases ran : registry.call call world with ⟨outcome, after⟩
  rw [ran] at gives fitsAfter
  cases gives
  rcases result with _ | value
  · cases typed
  · cases value with
    | boolean truth => exact Safe.ok fitsAfter
    | _ => cases typed

end Registry

variable {registry : Registry σ} {store : Store} {script : List String} {graph : Graph}

/-- A compiled graph is safe where the variables have the types of the script. -/
theorem safe_of_compile (built : registry.Built) (honest : registry.IsHonest)
    (compiled : (compile registry store script).graph = .ok graph)
    (keeps : graph.KeepsTypes (compile registry store script).store) :
    graph.Safe registry (World.Fits registry (compile registry store script).store)
      (fun fault => fault = .walkTooLong walkLimit) := by
  have sound := sound_of_compile compiled
  have branches : ∀ id < graph.branches.size, (graph.branch id).Safe registry
      (World.Fits registry (compile registry store script).store)
      (fun fault => fault = .walkTooLong walkLimit) := by
    intro id known
    constructor
    · intro arm member condition asked
      have accepted := (sound.branches id known).conditions arm member condition asked
      exact Registry.safeCondition_of_acceptsCondition built honest accepted _
    · exact (graph.branch id).isExhaustive_iff.mp (exhaustive_of_compile compiled known)
  constructor
  · intro id call member
    have accepted := (sound.lines id).commands call member
    have keepsCall := keeps call (Graph.mem_commands_of_line member)
    exact Registry.safeCommand_of_accepts built honest accepted keepsCall _
  · intro id branch linked
    exact branches branch ((sound.lines id).branch branch linked)
  · intro id call member
    have accepted := (sound.choices id).commands call member
    have keepsCall := keeps call (Graph.mem_commands_of_choice member)
    exact Registry.safeCommand_of_accepts built honest accepted keepsCall _
  · intro id call member
    have accepted := (sound.choices id).conditions call member
    exact Registry.safeCondition_of_acceptsCondition built honest accepted _
  · intro id branch linked
    exact branches branch ((sound.choices id).branch branch linked)
  · rfl

/-- A run in which the host keeps the types of the variables leads to safe
sessions. -/
theorem Session.safe_after_of_keepsTypes {allowed : Fault → Prop}
    (safe : graph.Safe registry (World.Fits registry store) allowed) (host : σ)
    {operations : List Operation}
    (meets : RunMeets KeepsTypes (Session.ofGraph graph registry ⟨store, host⟩) operations) :
    ((Session.ofGraph graph registry ⟨store, host⟩).after operations).Safe
      (World.Fits registry store) allowed := by
  have step : ∀ (session : Session σ) operation,
      session.Safe (World.Fits registry store) allowed → session.KeepsTypes operation →
        (session.operate operation).2.Safe (World.Fits registry store) allowed := by
    intro session operation held keeps
    have fits : ∀ name value, operation = .set name value →
        World.Fits registry store (session.setVariable name value).world := by
      intro name value sets
      apply Store.Fits.insert held.world
      rw [← held.world name]
      exact keeps name value sets
    exact (held.operate operation fits).session
  have begins : (Session.ofGraph graph registry ⟨store, host⟩).Safe
      (World.Fits registry store) allowed := ⟨safe, fun _ => rfl⟩
  exact after_induction step meets begins

/-- However a compiled script is played with the commands and variables that it was
compiled with, every command exists, gets arguments that it accepts and does not
fail, and every condition is a truth value.  A variable can only be missing where a
text that is to be shown has a placeholder for it. -/
theorem play_of_compile (built : registry.Built) (honest : registry.IsHonest)
    (compiled : (compile registry store script).graph = .ok graph)
    (keeps : graph.KeepsTypes (compile registry store script).store) (host : σ)
    {operations : List Operation} {operation : Operation} {session : Session σ} {fault : Fault}
    (meets : Session.RunMeets Session.KeepsTypes
      (Session.ofGraph graph registry ⟨(compile registry store script).store, host⟩) operations)
    (played : session =
      (Session.ofGraph graph registry ⟨(compile registry store script).store, host⟩).after
        operations)
    (failed : (session.operate operation).1 = .error fault) :
    (∀ name, fault ≠ .unknownCommand name) ∧
      (∀ name expected found, fault ≠ .signatureMismatch name expected found) ∧
      (∀ name found, fault ≠ .nonBooleanCondition name found) ∧
      (∀ name message, fault ≠ .commandFailed name message) ∧
      ∀ name, fault = .undefinedVariable name → (session.operate operation).2.Lacks name := by
  have graphSafe := safe_of_compile built honest compiled keeps
  have safe := Session.safe_after_of_keepsTypes graphSafe host meets
  rw [← played] at safe
  have blamed := safe.blames_of_operate failed
  cases blamed with
  | allowed fine =>
      rw [fine]
      simp
  | dialogue title => simp
  | turn cause => simp
  | placeholder name lacks =>
      refine ⟨by simp, by simp, by simp, by simp, ?_⟩
      rintro _ ⟨⟩
      exact lacks

/-- Commands of a host that counts how often it was asked. -/
def luckRegistry : Registry Nat :=
  Registry.builtin.register "Lucky" [.exactly .integer] (some .boolean)
    fun _ asked => (.ok (some (.boolean true)), asked + 1)

/-- A dialogue that greets a player by a name which the script does not declare. -/
def luckScript : List String :=
  ["- Shop", "(if Lucky($gold))", "\tKeeper: Good day. ($gold = 2)",
    "\tKeeper: Lucky you, \x7b$name\x7d!"]

/-- The missing name is found out when the greeting is to be shown, and it is the
greeting that lacks it. -/
theorem play_of_compile_missing_name :
    let store : Store := NameMap.ofList [("gold", .integer 3)]
    let session := (Session.ofGraph (compiledGraph luckRegistry store luckScript) luckRegistry
      ⟨(compile luckRegistry store luckScript).store, 0⟩).after
        [.set "gold" (.integer 9), .start "Shop", .next]
    (session.operate .next).1 = .error (.undefinedVariable "name") ∧
      (session.operate .next).2.Lacks "name" := by
  intro store session
  have failed : (session.operate .next).1 = .error (.undefinedVariable "name") := by
    decide +kernel
  have honest : luckRegistry.IsHonest := by
    apply Registry.isHonest_builtin.register
    intro function acts values host accepted
    cases acts
    exact ⟨_, rfl, rfl⟩
  have compiled : (compile luckRegistry store luckScript).graph =
      .ok (compiledGraph luckRegistry store luckScript) := by
    apply compile_eq_ok_compiledGraph
    decide +kernel
  have keeps : (compiledGraph luckRegistry store luckScript).KeepsTypes
      (compile luckRegistry store luckScript).store := by
    decide +kernel
  have meets : Session.RunMeets Session.KeepsTypes
      (Session.ofGraph (compiledGraph luckRegistry store luckScript) luckRegistry
        ⟨(compile luckRegistry store luckScript).store, 0⟩)
      [.set "gold" (.integer 9), .start "Shop", .next] := by
    refine ⟨?_, ?_, ?_, True.intro⟩
    · rintro name value ⟨⟩
      decide +kernel
    · rintro name value ⟨⟩
    · rintro name value ⟨⟩
  have done := play_of_compile (Registry.Built.register _ _ _ _ Registry.Built.builtin) honest
    compiled keeps 0 meets rfl failed
  exact ⟨failed, done.2.2.2.2 "name" rfl⟩

end Parley
