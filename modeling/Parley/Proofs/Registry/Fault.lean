import Parley.Command
import Parley.Proofs.Placeholder

/-!
# How a call can fail

Whatever a registry holds, a call fails in one of four ways, and a condition in one
more.  No other fault comes from a call.
-/

namespace Parley

/-- The faults for which a call is refused before its command is carried out: there is no such
command, a variable is not defined, or the arguments are not accepted. -/
inductive Fault.IsRefusal : Fault → Prop
  | unknown (name : String) : IsRefusal (.unknownCommand name)
  | mismatch (name expected found : String) : IsRefusal (.signatureMismatch name expected found)
  | undefined (name : String) : IsRefusal (.undefinedVariable name)

/-- The faults of calls and conditions. -/
inductive Fault.IsOfCall : Fault → Prop
  | unknown (name : String) : IsOfCall (.unknownCommand name)
  | mismatch (name expected found : String) : IsOfCall (.signatureMismatch name expected found)
  | undefined (name : String) : IsOfCall (.undefinedVariable name)
  | failed (name message : String) : IsOfCall (.commandFailed name message)
  | notBoolean (name found : String) : IsOfCall (.nonBooleanCondition name found)

theorem Fault.IsRefusal.isOfCall {fault : Fault} (refusal : fault.IsRefusal) : fault.IsOfCall := by
  cases refusal with
  | unknown name => exact .unknown name
  | mismatch name expected found => exact .mismatch name expected found
  | undefined name => exact .undefined name

theorem Fault.IsOfCall.ne_noApplicableArm {fault : Fault} (ofCall : fault.IsOfCall) :
    fault ≠ .noApplicableArm := by
  rintro rfl
  cases ofCall

theorem Argument.isRefusal_of_value {store : Store} {argument : Argument} {fault : Fault}
    (failed : argument.value store = .error fault) : fault.IsRefusal := by
  cases argument with
  | literal value => cases failed
  | reference name =>
      simp only [value, Store.read] at failed
      split at failed
      · cases failed
      · cases failed
        exact .undefined name

theorem Signature.isRefusal_of_check {signature : Signature} {name : String}
    {types : List DataType} {fault : Fault} (failed : signature.check name types = .error fault) :
    fault.IsRefusal := by
  unfold check at failed
  split at failed
  · cases failed
  · cases failed
    exact .mismatch _ _ _

namespace Command

variable {σ : Type} {command : Command σ}

/-- Where a command does not get its arguments, its call is refused. -/
theorem isRefusal_of_argumentValues {name : String} {arguments : List Argument} {store : Store}
    {fault : Fault} (failed : command.argumentValues name arguments store = .error fault) :
    fault.IsRefusal := by
  simp only [argumentValues] at failed
  rcases found : Argument.valuesOf store arguments with other | values
  · rw [found] at failed
    cases failed
    obtain ⟨argument, -, argumentFails⟩ := exists_of_mapM_eq_error found
    exact Argument.isRefusal_of_value argumentFails
  · rw [found, ok_bind] at failed
    rcases checked : command.signature.check name (values.map Value.type) with other | passed
    · rw [checked] at failed
      cases failed
      exact Signature.isRefusal_of_check checked
    · rw [checked] at failed
      cases failed

theorem isOfCall_of_settle {name : String} {declared : Option DataType}
    {outcome : Except String (Option Value)} {fault : Fault}
    (failed : settle name declared outcome = .error fault) : fault.IsOfCall := by
  cases outcome with
  | error message =>
      cases failed
      exact .failed name message
  | ok result =>
      simp only [settle] at failed
      split at failed
      · cases failed
      · cases failed
        exact .failed _ _

theorem isOfCall_of_run {name : String} {arguments : List Argument} {world : World σ}
    {fault : Fault} (failed : (command.run name arguments world).1 = .error fault) :
    fault.IsOfCall := by
  unfold run at failed
  split at failed
  · split at failed
    · rename_i source
      rcases found : source.value world.store with other | value
      · rw [found] at failed
        cases failed
        exact (Argument.isRefusal_of_value found).isOfCall
      · rw [found] at failed
        cases failed
    · cases failed
      exact .mismatch _ _ _
  · rcases found : command.argumentValues name arguments world.store with other | values
    · rw [found] at failed
      cases failed
      exact (isRefusal_of_argumentValues found).isOfCall
    · rw [found] at failed
      dsimp only at failed
      split at failed
      · cases failed
      · cases failed
        exact .mismatch _ _ _
  · rcases found : command.argumentValues name arguments world.store with other | values
    · rw [found] at failed
      cases failed
      exact (isRefusal_of_argumentValues found).isOfCall
    · rw [found] at failed
      exact isOfCall_of_settle failed

end Command

namespace Registry

variable {σ : Type} {registry : Registry σ}

theorem isOfCall_of_call {call : Call} {world : World σ} {fault : Fault}
    (failed : (registry.call call world).1 = .error fault) : fault.IsOfCall := by
  simp only [Registry.call, perform] at failed
  split at failed
  · cases failed
    exact .unknown _
  · exact Command.isOfCall_of_run failed

theorem isOfCall_of_holds {condition : Call} {world : World σ} {fault : Fault}
    (failed : (registry.holds condition world).1 = .error fault) : fault.IsOfCall := by
  unfold holds at failed
  split at failed
  · rename_i other after ran
    cases failed
    exact isOfCall_of_call (congrArg Prod.fst ran)
  · cases failed
  · cases failed
    exact .notBoolean _ _

theorem isOfCall_of_allHold {conditions : List Call} {world : World σ} {fault : Fault}
    (failed : (registry.allHold conditions world).1 = .error fault) : fault.IsOfCall := by
  induction conditions generalizing world with
  | nil => cases failed
  | cons condition rest ih =>
      unfold allHold at failed
      split at failed
      · rename_i asked
        cases failed
        exact isOfCall_of_holds (congrArg Prod.fst asked)
      · cases failed
      · exact ih failed

theorem isOfCall_of_runAll {calls : List Call} {world : World σ} {fault : Fault}
    (failed : (registry.runAll calls world).1 = .error fault) : fault.IsOfCall := by
  induction calls generalizing world with
  | nil => cases failed
  | cons call rest ih =>
      unfold runAll at failed
      split at failed
      · rename_i ran
        cases failed
        exact isOfCall_of_call (congrArg Prod.fst ran)
      · exact ih failed

end Registry

end Parley
