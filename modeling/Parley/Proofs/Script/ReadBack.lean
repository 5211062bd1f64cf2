import Parley.Proofs.Script.Accepted
import Parley.Proofs.Script.Writing

/-!
# Written calls are read back

A list of commands is recovered from its source, in which semicolons stand between the commands,
whatever the texts among the arguments hold: the source is split between the commands only, each
part has one form only, and each argument is read as the value that was written.  The same holds
of conditions with the word `and` between them, if each of them gives a truth value.  What the
host has put in place of a comparison may give none, and is then refused as a condition.
-/

namespace Parley

open Parley.Text Parley.Script

namespace Script.Scope

variable {scope : Scope} {call : Call} {argument : Argument}

/-! ## Blanks around a source -/

theorem mapM_eq_ok_of_map_trim {ε α : Type} {read : Chars → Except ε α}
    (trims : ∀ text, read (trim text) = read text) {write : α → Chars} {parts : List Chars}
    {items : List α} (same : parts.map trim = items.map write)
    (each : ∀ item ∈ items, read (write item) = .ok item) : parts.mapM read = .ok items := by
  induction items generalizing parts with
  | nil =>
      rw [List.map_nil, List.map_eq_nil_iff] at same
      rw [same]
      rfl
  | cons item rest ih =>
      obtain ⟨part, others, rfl, first, remaining⟩ := List.map_eq_cons_iff.mp same
      have found := each item List.mem_cons_self
      rw [← first, trims] at found
      exact mapM_cons_eq_ok_iff.mpr ⟨item, rest, found,
        ih remaining fun other member => each other (List.mem_cons_of_mem _ member), rfl⟩

theorem readArgument_trim (text : Chars) :
    scope.readArgument (trim text) = scope.readArgument text := by
  rw [readArgument, readArgument, trim_trim]

theorem readCommand_trim (text : Chars) :
    scope.readCommand (trim text) = scope.readCommand text := by
  rw [readCommand, readCommand, trim_trim]

theorem readCondition_trim (text : Chars) :
    scope.readCondition (trim text) = scope.readCondition text := by
  rw [readCondition, readCondition, trim_trim]

/-! ## Calls -/

/-- The variables of a call that has been checked are defined. -/
theorem defines_of_check (checked : scope.check call = .ok ()) {name : String}
    (member : .reference name ∈ call.arguments) : scope.defines name = true := by
  obtain ⟨_, _, checked⟩ := bind_eq_ok_iff.mp checked
  obtain ⟨_, typed, _⟩ := bind_eq_ok_iff.mp checked
  obtain ⟨type, found, _⟩ := exists_of_mapM_eq_ok typed _ member
  simp only [typeOf] at found
  split at found
  · rename_i type defined
    rw [defines, defined]
    rfl
  · cases found

theorem readArgument_source (writable : argument.IsWritable)
    (defined : ∀ name, argument = .reference name → scope.defines name = true) :
    scope.readArgument argument.source = .ok argument := by
  have operand := Argument.isOperand_source writable
  rw [readArgument, operand.isTrimmed.trim_eq]
  cases argument with
  | reference name =>
      simp only [Argument.source, String.ofList_toList]
      rw [if_pos (defined name rfl)]
  | literal value =>
      have head := Value.head_source writable
      simp only [Argument.source]
      split
      · rename_i empty
        exact absurd empty operand.ne_nil
      · rename_i rest reference
        rw [reference] at head
        exact absurd List.mem_cons_self (head '$' rfl)
      · rw [Value.read_source writable]

/-- The arguments of a call are read back from the text between its parentheses. -/
theorem readArguments_argumentSource {arguments : List Argument}
    (writable : ∀ argument ∈ arguments, argument.IsWritable)
    (defined : ∀ name, .reference name ∈ arguments → scope.defines name = true) :
    scope.readArguments (if trim (Call.argumentSource arguments) = [] then []
      else splitUnnested ',' (trim (Call.argumentSource arguments))) = .ok arguments := by
  have operands : ∀ part ∈ arguments.map Argument.source, CallSyntax.IsOperand part := by
    intro part member
    obtain ⟨argument, among, rfl⟩ := List.mem_map.mp member
    exact Argument.isOperand_source (writable argument among)
  have trimmed : IsTrimmed (Call.argumentSource arguments) :=
    IsTrimmed.intercalate _ fun part member =>
      ⟨(operands part member).isTrimmed, (operands part member).ne_nil⟩
  rw [trimmed.trim_eq]
  rcases arguments with _ | ⟨first, rest⟩
  · rfl
  · have some : Call.argumentSource (first :: rest) ≠ [] :=
      intercalate_ne_nil (operands _ List.mem_cons_self).ne_nil _ _
    have parted : (splitUnnested ',' (Call.argumentSource (first :: rest))).map trim =
        (first :: rest).map Argument.source := by
      rw [Call.argumentSource, map_trim_splitUnnested (by decide) (by simp)]
      · rw [List.map_map]
        refine List.map_congr_left fun argument member => ?_
        exact (Argument.isOperand_source (writable argument member)).isTrimmed.trim_eq
      · intro part member before
        obtain ⟨argument, among, rfl⟩ := List.mem_map.mp member
        exact (passesCalls_splitAt (by decide)).argument (writable argument among) before
    rw [if_neg some]
    refine mapM_eq_ok_of_map_trim readArgument_trim parted fun argument member => ?_
    refine readArgument_source (writable argument member) fun name same => ?_
    exact defined name (same ▸ member)

theorem readCall?_application (applies : call.IsApplication)
    (checked : scope.check call = .ok ()) : scope.readCall? call.source = .ok (some call) := by
  have oneLine : ∀ c ∈ Call.argumentSource call.arguments, c ≠ '\n' := by
    refine forall_mem_intercalate (by simp) fun part member c among => ?_
    obtain ⟨argument, placed, rfl⟩ := List.mem_map.mp member
    rintro rfl
    exact (Argument.isOperand_source (applies.writable argument placed)).oneLine among
  rw [applies.source_eq]
  refine readCall?_eq_some_iff.mpr ⟨call.name.toList, Call.argumentSource call.arguments, ?_,
    String.ofList_toList.symm, ?_⟩
  · refine CallSyntax.call?_eq_some_iff.mpr ⟨[], ?_, applies.named.1, applies.named.2,
      by simp, fun member => oneLine '\n' member rfl⟩
    rw [List.append_nil]
  · exact readArguments_argumentSource applies.writable fun name member =>
      defines_of_check checked member

theorem readCall?_eq_none {source : Chars} (none : CallSyntax.call? source = none) :
    scope.readCall? source = .ok Option.none := by
  rw [readCall?, none]

/-- A command is read back. -/
theorem readCommand_source (command : call.IsCommand) (checked : scope.check call = .ok ()) :
    scope.readCommand call.source = .ok call := by
  have passed : scope.checked call = .ok call := by
    rw [Scope.checked, checked]
    rfl
  rw [readCommand, command.isTrimmed.1.trim_eq]
  cases command with
  | application applies =>
      rw [readCall?_application applies checked]
      exact passed
  | @assignment target argument named writable =>
      have defined : scope.defines target = true := defines_of_check checked List.mem_cons_self
      have read : scope.readArgument argument.source = .ok argument :=
        readArgument_source writable fun name same =>
          defines_of_check checked (same ▸ List.mem_cons_of_mem _ List.mem_cons_self)
      have assigned := CallSyntax.assignment?_eq_some named.1 named.2
        (Argument.isOperand_source writable)
      have whole : Call.source ⟨Command.assignName, [.reference target, argument]⟩ =
          '$' :: (target.toList ++ ' ' :: '=' :: ' ' :: argument.source) :=
        Call.source_eq_of_operator List.mem_cons_self
      rw [whole, readCall?_eq_none (CallSyntax.call?_reference _), ok_bind]
      dsimp only
      rw [assigned]
      dsimp only
      rw [readAssignment, String.ofList_toList, if_pos defined, read, ok_bind]
      exact passed

theorem readUncheckedCondition_source (condition : call.IsCondition)
    (checked : scope.check call = .ok ()) :
    scope.readUncheckedCondition call.source = .ok call := by
  rw [readUncheckedCondition]
  cases condition with
  | application applies =>
      rw [readCall?_application applies checked]
      rfl
  | @comparison operator left right compares writable writableRight =>
      have operand := Argument.isOperand_source writable
      have other := Argument.isOperand_source writableRight
      have read : scope.readArgument left.source = .ok left :=
        readArgument_source writable fun name same =>
          defines_of_check checked (same ▸ List.mem_cons_self)
      have readRight : scope.readArgument right.source = .ok right :=
        readArgument_source writableRight fun name same =>
          defines_of_check checked (same ▸ List.mem_cons_of_mem _ List.mem_cons_self)
      rw [Call.source_eq_of_operator (List.mem_cons_of_mem _ compares),
        readCall?_eq_none (CallSyntax.call?_comparison operand compares), ok_bind]
      dsimp only
      rw [CallSyntax.comparison?_eq_some operand other compares]
      have both : scope.readArguments [left.source, right.source] = .ok [left, right] :=
        mapM_cons_eq_ok_iff.mpr ⟨left, [right], read,
          mapM_cons_eq_ok_iff.mpr ⟨right, [], readRight, rfl, rfl⟩, rfl⟩
      dsimp only
      rw [both]
      rfl

theorem readCondition_source (condition : call.IsCondition) (checked : scope.check call = .ok ())
    (boolean : scope.checkBoolean call = .ok ()) : scope.readCondition call.source = .ok call := by
  rw [readCondition, condition.isTrimmed.1.trim_eq,
    readUncheckedCondition_source condition checked, ok_bind, checked, ok_bind, boolean]
  rfl

theorem checkBoolean_eq_ok_iff :
    scope.checkBoolean call = .ok () ↔
      ∃ signature, scope.signature? call.name = some signature ∧
        signature.result = some .boolean := by
  unfold checkBoolean signature
  split
  · rename_i signature found
    rw [ok_bind, found]
    split
    · rename_i boolean
      exact ⟨fun _ => ⟨signature, rfl, boolean⟩, fun _ => rfl⟩
    · rename_i other
      refine ⟨nofun, ?_⟩
      rintro ⟨_, same, boolean⟩
      cases same
      exact absurd boolean other
  · rename_i missing
    rw [missing]
    exact ⟨nofun, nofun⟩

/-! ## Lists of calls -/

/-- A command block is read back. -/
theorem readCommands_commandSource {calls : List Call}
    (each : ∀ call ∈ calls, call.IsCommand ∧ scope.check call = .ok ()) :
    scope.readCommands (Call.commandSource calls) = .ok calls := by
  rcases calls with _ | ⟨first, rest⟩
  · rfl
  · have trimmed : ∀ part ∈ (first :: rest).map Call.source, trim part = part ∧ part ≠ [] := by
      intro part member
      obtain ⟨call, among, rfl⟩ := List.mem_map.mp member
      obtain ⟨trims, some⟩ := (each call among).1.isTrimmed
      exact ⟨trims.trim_eq, some⟩
    have parted : (splitUnnested ';' (Call.commandSource (first :: rest))).map trim =
        (first :: rest).map Call.source := by
      rw [Call.commandSource, map_trim_splitUnnested (by decide) (by simp)]
      · rw [List.map_congr_left fun part member => (trimmed part member).1, List.map_id']
      · intro part member before
        obtain ⟨call, among, rfl⟩ := List.mem_map.mp member
        exact (each call among).1.passes (passesCalls_splitAt (by decide)) before
    rw [readCommands, parted, List.filter_eq_self.mpr]
    · have same : ((first :: rest).map Call.source).map trim = (first :: rest).map Call.source := by
        rw [List.map_congr_left fun part member => (trimmed part member).1, List.map_id']
      exact mapM_eq_ok_of_map_trim readCommand_trim same fun call member =>
        readCommand_source (each call member).1 (each call member).2
    · intro part member
      simpa using (trimmed part member).2

/-- Conditions are read back exactly if they give truth values. -/
theorem readConditions_conditionSource_iff {conditions : List Call} (some : conditions ≠ [])
    (each : ∀ condition ∈ conditions, condition.IsCondition ∧ scope.check condition = .ok ()) :
    scope.readConditions (Call.conditionSource conditions) = .ok conditions ↔
      ∀ condition ∈ conditions, scope.checkBoolean condition = .ok () := by
  constructor
  · intro read condition member
    exact (acceptsCondition_of_readConditions read condition member).boolean
  · intro boolean
    have trimmed : ∀ part ∈ conditions.map Call.source, IsTrimmed part ∧ part ≠ [] := by
      intro part member
      obtain ⟨condition, among, rfl⟩ := List.mem_map.mp member
      exact (each condition among).1.isTrimmed
    have whole : trim (Call.conditionSource conditions) = Call.conditionSource conditions :=
      (IsTrimmed.intercalate _ trimmed).trim_eq
    have parted : (splitUnnestedWord andWord (Call.conditionSource conditions)).map trim =
        conditions.map Call.source := by
      rw [Call.conditionSource, map_trim_splitUnnestedWord (by decide)
        (forall_mem_of_all (by decide)) (forall_mem_of_all (by decide)) (by simpa using some)]
      · rw [List.map_congr_left fun part member => (trimmed part member).1.trim_eq, List.map_id']
      · intro part member before
        obtain ⟨condition, among, rfl⟩ := List.mem_map.mp member
        exact (each condition among).1.passes passesCalls_splitAtWord before
    rw [readConditions, whole]
    refine mapM_eq_ok_of_map_trim readCondition_trim parted fun condition member => ?_
    exact readCondition_source (each condition member).1 (each condition member).2
      (boolean condition member)

end Script.Scope

/-- Commands are read back from their source, and conditions exactly if each of them calls a
command that is declared to give a truth value. -/
theorem reads_back_written_calls {σ : Type} (registry : Registry σ) (store : Store) :
    let scope := Scope.ofWorld registry store
    (∀ calls : List Call, (∀ call ∈ calls, call.IsCommand ∧ scope.check call = .ok ()) →
      scope.readCommands (Call.commandSource calls) = .ok calls) ∧
    ∀ conditions : List Call, conditions ≠ [] →
      (∀ condition ∈ conditions, condition.IsCondition ∧ scope.check condition = .ok ()) →
      (scope.readConditions (Call.conditionSource conditions) = .ok conditions ↔
        ∀ condition ∈ conditions, ∃ signature,
          registry.signature? condition.name = some signature ∧
            signature.result = some .boolean) := by
  refine ⟨fun calls each => Scope.readCommands_commandSource each, fun conditions some each => ?_⟩
  rw [Scope.readConditions_conditionSource_iff some each]
  exact forall₂_congr fun condition _ => Scope.checkBoolean_eq_ok_iff

/-- What there is to call where a host shows things and asks for a word. -/
def askingRegistry : Registry Unit :=
  let shows := (Registry.builtin : Registry Unit).register "Show" [.exactly .text, .any, .any] none
    fun _ host => (.ok none, host)
  shows.register "and" [.exactly .text] (some .boolean)
    fun _ host => (.ok (some (.boolean true)), host)

/-- Everything that separates calls and arguments stands in a text here, and the word between
conditions is the name of a command. -/
theorem reads_back_separators_in_texts :
    let store : Store := NameMap.ofList [("gold", .integer 3), ("name", .text "Ada")]
    let scope := Scope.ofWorld askingRegistry store
    let gold : Argument := .reference "gold"
    let text : Argument := .literal (.text "a; b, (c and d) = 1)")
    let lowest : Argument := .literal (.integer Int64.minValue)
    scope.readCommands
        "$gold = -9223372036854775808; Show(\"a; b, (c and d) = 1)\", $gold, true)".toList =
      .ok [⟨"=", [gold, lowest]⟩, ⟨"Show", [text, gold, .literal (.boolean true)]⟩] ∧
    scope.readConditions
        "and(\"a; b, (c and d) = 1)\") and \"a; b, (c and d) = 1)\" != $name".toList =
      .ok [⟨"and", [text]⟩, ⟨"!=", [text, .reference "name"]⟩] := by
  intro store scope gold text lowest
  obtain ⟨commands, conditions⟩ := reads_back_written_calls askingRegistry store
  refine ⟨?_, ?_⟩
  · refine (congrArg scope.readCommands ?_).trans (commands _ fun call member => ?_)
    · decide +kernel
    · rcases List.mem_cons.mp member with rfl | member
      · exact ⟨.assignment (by decide +kernel) trivial, by decide +kernel⟩
      · obtain rfl := List.mem_singleton.mp member
        exact ⟨.application ⟨by decide +kernel, by decide +kernel⟩, by decide +kernel⟩
  · refine (congrArg scope.readConditions ?_).trans ((conditions _ ?_ fun call member => ?_).mpr
      fun call member => ?_)
    · decide +kernel
    · exact List.cons_ne_nil _ _
    · rcases List.mem_cons.mp member with rfl | member
      · exact ⟨.application ⟨by decide +kernel, by decide +kernel⟩, by decide +kernel⟩
      · obtain rfl := List.mem_singleton.mp member
        exact ⟨.comparison (by decide) (by decide +kernel) (by decide +kernel), by decide +kernel⟩
    · rcases List.mem_cons.mp member with rfl | member
      · exact ⟨⟨[.exactly .text], some .boolean⟩, by decide +kernel, rfl⟩
      · obtain rfl := List.mem_singleton.mp member
        exact ⟨⟨[.any, .any], some .boolean⟩, by decide +kernel, rfl⟩

/-- What a host has put in place of a comparison gives nothing: as a condition it is written, and
checked, but not read back. -/
theorem not_reads_back_comparison_without_result :
    let registry := (Registry.builtin : Registry Unit).register "==" [.any, .any] none
      fun _ host => (.ok none, host)
    let scope := Scope.ofWorld registry (NameMap.ofList [("gold", .integer 3)])
    let comparison : Call := ⟨"==", [.reference "gold", .literal (.integer 3)]⟩
    comparison.IsCondition ∧ scope.check comparison = .ok () ∧
      scope.readConditions (Call.conditionSource [comparison]) =
        .error (.nonBooleanCondition "==" "nothing") ∧
      scope.readConditions (Call.conditionSource [comparison]) ≠ .ok [comparison] := by
  intro registry scope comparison
  have failed : scope.readConditions (Call.conditionSource [comparison]) =
      .error (.nonBooleanCondition "==" "nothing") := by
    decide +kernel
  refine ⟨.comparison (by decide) (by decide +kernel) trivial, by decide +kernel, failed, ?_⟩
  rw [failed]
  exact nofun

end Parley
