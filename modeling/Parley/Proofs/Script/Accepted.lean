import Parley.Script.Calls
import Parley.Proofs.Text.Splitting

/-!
# Calls that a script may place

Whatever is read out of a command block or a condition has passed the check of
its scope.  Beyond the check, an assignment names the variable that it sets, a
condition is a call that gives a truth value, and where a condition is read there
is at least one.
-/

namespace Parley.Script

open Parley.Text

/-- What holds of each result of the items holds of all results. -/
theorem forall_of_mapM_eq_ok {ε α β : Type} {f : α → Except ε β} {property : β → Prop}
    (each : ∀ item result, f item = .ok result → property result)
    {items : List α} {results : List β} (done : items.mapM f = .ok results) :
    ∀ result ∈ results, property result := by
  induction items generalizing results with
  | nil =>
      cases done
      simp
  | cons item rest ih =>
      obtain ⟨first, others, found, foundRest, rfl⟩ := mapM_cons_eq_ok_iff.mp done
      intro result member
      rcases List.mem_cons.mp member with rfl | member
      · exact each item result found
      · exact ih foundRest result member

/-- The name in front of parentheses consists of word characters. -/
theorem isWord_of_call? {source name inner : Chars}
    (found : CallSyntax.call? source = some (name, inner)) : ∀ c ∈ name, isWord c = true := by
  simp only [CallSyntax.call?] at found
  split at found
  · split at found
    · cases found
      intro c member
      exact List.all_eq_true.mp List.all_takeWhile c member
    · cases found
  · cases found

/-- A call with parentheses is no assignment. -/
theorem name_ne_assignName_of_call? {source name inner : Chars}
    (found : CallSyntax.call? source = some (name, inner)) :
    String.ofList name ≠ Command.assignName := by
  intro same
  have nameEq : name = ['='] := by
    have lists := congrArg String.toList same
    simpa [Command.assignName] using lists
  have word := isWord_of_call? found '=' (by simp [nameEq])
  exact absurd word (by decide)

/-- No comparison is written with a single equals sign. -/
theorem name_ne_assignName_of_operator? {text rest : Chars} {operator : String}
    (found : CallSyntax.operator? text = some (operator, rest)) :
    operator ≠ Command.assignName := by
  unfold CallSyntax.operator? at found
  split at found <;> cases found <;> decide

theorem name_ne_assignName_of_comparison? {source left right : Chars} {operator : String}
    (found : CallSyntax.comparison? source = some (left, operator, right)) :
    operator ≠ Command.assignName := by
  unfold CallSyntax.comparison? at found
  split at found
  · cases found
  · split at found
    · cases found
    · rename_i operated
      split at found
      · cases found
        exact name_ne_assignName_of_operator? operated
      · cases found

namespace Scope

variable {scope : Scope}

/-- A call that may be placed as a command. -/
structure Accepts (scope : Scope) (call : Call) : Prop where
  checked : scope.check call = .ok ()
  /-- An assignment names its target. -/
  assigns : call.name = Command.assignName →
    ∃ target source, call.arguments = [.reference target, source]

/-- A call that may be placed as a condition. -/
structure AcceptsCondition (scope : Scope) (call : Call) : Prop where
  checked : scope.check call = .ok ()
  boolean : scope.checkBoolean call = .ok ()
  /-- It is no assignment, whatever command goes by that name. -/
  tests : call.name ≠ Command.assignName

/-- A call read from its own syntax is no assignment. -/
theorem name_ne_assignName_of_readCall? {source : Chars} {call : Call}
    (found : scope.readCall? source = .ok (some call)) : call.name ≠ Command.assignName := by
  unfold readCall? at found
  split at found
  · cases found
  · rename_i name argumentText taken
    obtain ⟨arguments, _, same⟩ := bind_eq_ok_iff.mp found
    cases same
    exact name_ne_assignName_of_call? taken

theorem checked_eq_ok_iff {call result : Call} :
    scope.checked call = .ok result ↔ scope.check call = .ok () ∧ result = call := by
  unfold checked
  rw [bind_eq_ok_iff]
  constructor
  · rintro ⟨_, passed, same⟩
    cases same
    exact ⟨passed, rfl⟩
  · rintro ⟨passed, rfl⟩
    exact ⟨(), passed, rfl⟩

theorem accepts_of_readAssignment {target source : Chars} {call : Call}
    (found : scope.readAssignment target source = .ok call) : scope.Accepts call := by
  simp only [readAssignment] at found
  split at found
  · obtain ⟨argument, _, checkedCall⟩ := bind_eq_ok_iff.mp found
    obtain ⟨passed, rfl⟩ := checked_eq_ok_iff.mp checkedCall
    exact ⟨passed, fun _ => ⟨_, _, rfl⟩⟩
  · cases found

theorem accepts_of_readCommand {raw : Chars} {call : Call}
    (found : scope.readCommand raw = .ok call) : scope.Accepts call := by
  unfold readCommand at found
  obtain ⟨called, readCalled, found⟩ := bind_eq_ok_iff.mp found
  cases called with
  | some called =>
      obtain ⟨passed, rfl⟩ := checked_eq_ok_iff.mp found
      exact ⟨passed, fun assigns => absurd assigns (name_ne_assignName_of_readCall? readCalled)⟩
  | none =>
      simp only at found
      split at found
      · exact accepts_of_readAssignment found
      · cases found

/-- Every call of a command block may be placed as a command. -/
theorem accepts_of_readCommands {block : Chars} {calls : List Call}
    (found : scope.readCommands block = .ok calls) : ∀ call ∈ calls, scope.Accepts call :=
  forall_of_mapM_eq_ok (fun _ _ => accepts_of_readCommand) found

/-- A condition is read as a call or as a comparison, never as an assignment. -/
theorem name_ne_assignName_of_readUncheckedCondition {source : Chars} {call : Call}
    (found : scope.readUncheckedCondition source = .ok call) :
    call.name ≠ Command.assignName := by
  unfold readUncheckedCondition at found
  obtain ⟨called, readCalled, found⟩ := bind_eq_ok_iff.mp found
  cases called with
  | some called =>
      cases found
      exact name_ne_assignName_of_readCall? readCalled
  | none =>
      simp only at found
      split at found
      · rename_i taken
        obtain ⟨arguments, _, same⟩ := bind_eq_ok_iff.mp found
        cases same
        exact name_ne_assignName_of_comparison? taken
      · cases found

theorem acceptsCondition_of_readCondition {raw : Chars} {call : Call}
    (found : scope.readCondition raw = .ok call) : scope.AcceptsCondition call := by
  unfold readCondition at found
  obtain ⟨unchecked, readUnchecked, found⟩ := bind_eq_ok_iff.mp found
  obtain ⟨_, passed, found⟩ := bind_eq_ok_iff.mp found
  obtain ⟨_, boolean, same⟩ := bind_eq_ok_iff.mp found
  cases same
  exact ⟨passed, boolean, name_ne_assignName_of_readUncheckedCondition readUnchecked⟩

/-- Every call of a condition may be placed as a condition. -/
theorem acceptsCondition_of_readConditions {source : Chars} {calls : List Call}
    (found : scope.readConditions source = .ok calls) :
    ∀ call ∈ calls, scope.AcceptsCondition call :=
  forall_of_mapM_eq_ok (fun _ _ => acceptsCondition_of_readCondition) found

/-- Where conditions are read, there is at least one. -/
theorem ne_nil_of_readConditions {source : Chars} {calls : List Call}
    (found : scope.readConditions source = .ok calls) : calls ≠ [] := by
  rintro rfl
  have parts := length_of_mapM_eq_ok found
  exact splitWordFrom_ne_nil _ _ _ _ _ (List.length_eq_zero_iff.mp parts.symm)

end Scope

end Parley.Script
