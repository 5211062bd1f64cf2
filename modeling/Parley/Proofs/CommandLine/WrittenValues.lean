import Parley.CommandLine.Override
import Parley.Proofs.Compilation.Blame
import Parley.Proofs.Script.ReadBack

/-!
# Three ways to write a value

A variable is given a value by the line that declares it, by an assignment that is compiled and
run, and by an override on the command line.  Each of the three takes the text of the value out of
its surroundings in a way of its own: the declaration decides by the first quote whether the value
is a text, and the other two leave that to the reading of literals.  What a declaration accepts as
a value means the same in all of them.
-/

namespace Parley

open Parley.Text Parley.Script

/-! ## Values of declarations -/

/-- A value as declarations admit it: between quotes without quotes inside, or word characters and
points behind a minus at most. -/
inductive IsWrittenValue : Chars → Prop
  | quoted {text : Chars} (closed : '"' ∉ text) : IsWrittenValue ('"' :: (text ++ ['"']))
  | bare {run : Chars} (nonempty : run ≠ [])
      (plain : ∀ c ∈ run, Declaration.isBareChar c = true) : IsWrittenValue run
  | negative {run : Chars} (nonempty : run ≠ [])
      (plain : ∀ c ∈ run, Declaration.isBareChar c = true) : IsWrittenValue ('-' :: run)

/-- The source by which a variable is declared, or assigned to. -/
def assignmentSource (name : String) (value : Chars) : Chars :=
  '$' :: (name.toList ++ ' ' :: '=' :: ' ' :: value)

/-- What stands in a value without quotes is none of the characters with a meaning of their own. -/
theorem apart_of_isBareChar {c : Char} (plain : Declaration.isBareChar c = true) :
    isBlank c = false ∧ c ∉ separators := by
  rcases Bool.or_eq_true_iff.mp plain with word | point
  · exact ⟨isBlank_eq_false_of_isWord word, not_mem_separators_of_isWord word⟩
  · rw [eq_of_beq point]
    decide

namespace IsWrittenValue

variable {source : Chars} (written : IsWrittenValue source)

include written

theorem isOperand (oneLine : '\n' ∉ source) : CallSyntax.IsOperand source := by
  cases written with
  | quoted closed => exact .quoted closed (by simpa using oneLine)
  | bare nonempty plain =>
      exact .bare nonempty (fun c member => (apart_of_isBareChar (plain c member)).1)
        fun c member => (apart_of_isBareChar (plain c member)).2
  | negative _ plain =>
      have each : ∀ c ∈ '-' :: _, isBlank c = false ∧ c ∉ separators :=
        List.forall_mem_cons.mpr ⟨by decide, fun c member => apart_of_isBareChar (plain c member)⟩
      exact .bare (List.cons_ne_nil _ _) (fun c member => (each c member).1)
        fun c member => (each c member).2

/-- No value is taken for a variable. -/
theorem head_ne_sigil : source.head? ≠ some '$' := by
  cases written with
  | quoted => simp
  | bare _ plain =>
      intro begins
      cases plain '$' (List.mem_of_mem_head? begins)
  | negative => simp

end IsWrittenValue

/-! ## Declarations -/

namespace Script.Declaration

theorem bareValue?_run {run : Chars} (nonempty : run ≠ [])
    (plain : ∀ c ∈ run, isBareChar c = true) (minus : Chars) :
    bareValue? minus run = some (Literal.read (minus ++ run)) := by
  have stops : ∀ c ∈ ([] : Chars).head?, isBareChar c = false := by simp
  obtain ⟨taken, left⟩ := takeWhile_append_of_stop plain stops
  rw [List.append_nil] at taken left
  rw [bareValue?, taken, left]
  exact if_pos ⟨nonempty, rfl⟩

/-- A declared value is read as a literal, with or without quotes. -/
theorem value?_of_isWrittenValue {source : Chars} (written : IsWrittenValue source) :
    value? source = some (Literal.read source) := by
  cases written with
  | @quoted text closed =>
      rw [value?, quotedValue?, cutAt?_append closed, Literal.read_quoted]
      rfl
  | @bare run nonempty plain =>
      unfold value?
      split
      · cases plain '"' List.mem_cons_self
      · cases plain '-' List.mem_cons_self
      · exact bareValue?_run nonempty plain []
  | negative nonempty plain => exact bareValue?_run nonempty plain ['-']

variable {name : String} {source : Chars}

/-- The line that declares a value is read as that declaration. -/
theorem read?_assignmentSource (named : IsName name) (written : IsWrittenValue source)
    (oneLine : '\n' ∉ source) :
    read? (assignmentSource name source) = some ⟨name, Literal.read source⟩ := by
  have operand := written.isOperand oneLine
  have ends : trimEnd (assignmentSource name source) = assignmentSource name source := by
    refine trimEnd_of_last fun c member => operand.isTrimmed.last c ?_
    have last := List.getLast?_eq_some_getLast operand.ne_nil
    rw [assignmentSource, ← List.cons_append, List.getLast?_append] at member
    simpa [List.getLast?_cons, last] using member
  have stops : ∀ c ∈ (' ' :: '=' :: ' ' :: source).head?, isWord c = false := by
    intro c member
    cases member
    rfl
  obtain ⟨taken, left⟩ := takeWhile_append_of_stop named.2 stops
  rw [read?_eq_assigned? ends, if_pos rfl, taken, left, trimStart_cons_blank rfl,
    trimStart_cons_of_not_blank rfl, assigned?, if_pos ⟨rfl, named.1⟩, trimStart_cons_blank rfl,
    trimStart_of_head operand.isTrimmed.head, value?_of_isWrittenValue written,
    String.ofList_toList]
  rfl

end Script.Declaration

/-! ## Assignments -/

section Assignment

variable {σ : Type} {registry : Registry σ} {store : Store} {name : String} {source : Chars}

/-- The call by which a variable is given a value. -/
def assignmentCall (name : String) (value : Value) : Call :=
  ⟨Command.assignName, [.reference name, .literal value]⟩

/-- A defined variable may be given any value. -/
theorem check_assignmentCall
    (builtin : registry.get? Command.assignName = some Command.assignment)
    (defined : (Scope.ofWorld registry store).defines name = true) (value : Value) :
    (Scope.ofWorld registry store).check (assignmentCall name value) = .ok () := by
  obtain ⟨type, typed⟩ := Option.isSome_iff_exists.mp defined
  have signature : (Scope.ofWorld registry store).signature Command.assignName =
      .ok (Command.assignment (σ := σ)).signature := by
    simp only [Scope.signature, Scope.ofWorld, Registry.signature?, builtin, Option.map_some]
  have types : (Scope.ofWorld registry store).typesOf (assignmentCall name value).arguments =
      .ok [type, value.type] := by
    refine mapM_cons_eq_ok_iff.mpr ⟨type, [value.type], ?_,
      mapM_cons_eq_ok_iff.mpr ⟨value.type, [], rfl, rfl, rfl⟩, rfl⟩
    simp only [Scope.typeOf, typed]
  have accepted : (Command.assignment (σ := σ)).signature.check Command.assignName
      [type, value.type] = .ok () :=
    Signature.check_eq_ok_iff.mpr rfl
  rw [Scope.check, assignmentCall, signature, ok_bind]
  rw [assignmentCall] at types
  rw [types, ok_bind, accepted, ok_bind]
  rfl

/-- The source of an assignment is compiled to the call that stores the value. -/
theorem readCommand_assignmentSource
    (builtin : registry.get? Command.assignName = some Command.assignment)
    (named : IsName name) (written : IsWrittenValue source) (oneLine : '\n' ∉ source)
    (defined : store.contains name = true) :
    (Scope.ofWorld registry store).readCommand (assignmentSource name source) =
      .ok (assignmentCall name (Literal.read source)) := by
  have operand := written.isOperand oneLine
  have known : (Scope.ofWorld registry store).defines name = true := by
    simpa only [Scope.defines, Scope.ofWorld, Store.typeOf?, Option.isSome_map,
      NameMap.contains] using defined
  have trimmed : trim (assignmentSource name source) = assignmentSource name source := by
    have sigil : IsTrimmed ['$'] := .single rfl
    have whole := sigil.join operand.isTrimmed (by decide) operand.ne_nil
      (name.toList ++ [' ', '=', ' '])
    rw [assignmentSource]
    simpa using whole.trim_eq
  have read : (Scope.ofWorld registry store).readArgument source =
      .ok (.literal (Literal.read source)) := by
    rw [Scope.readArgument, operand.isTrimmed.trim_eq]
    split
    · exact absurd rfl operand.ne_nil
    · exact absurd rfl written.head_ne_sigil
    · rfl
  have assigned := CallSyntax.assignment?_eq_some named.1 named.2 operand
  rw [Scope.readCommand, trimmed, assignmentSource, Scope.readCall?_eq_none
    (CallSyntax.call?_reference _), ok_bind]
  dsimp only
  rw [assigned]
  dsimp only
  rw [Scope.readAssignment, String.ofList_toList, if_pos known, read, ok_bind, Scope.checked]
  show ((Scope.ofWorld registry store).check (assignmentCall name (Literal.read source)) >>= _) = _
  rw [check_assignmentCall builtin known, ok_bind]
  rfl

/-- Running it stores the value, whatever the variable was before, and does nothing else. -/
theorem call_assignmentCall
    (builtin : registry.get? Command.assignName = some Command.assignment) (value : Value)
    (world : World σ) :
    registry.call (assignmentCall name value) world =
      (.ok none, { world with store := world.store.insert name value }) := by
  rw [Registry.call, Registry.perform, assignmentCall, builtin]
  rfl

end Assignment

/-! ## Overrides -/

namespace CommandLine.Override

/-- An override is cut behind the name, and its literal is read as it stands. -/
theorem read_of_isName {name : String} (named : IsName name) (value : Chars) :
    read (String.ofList (name.toList ++ '=' :: value)) =
      if name.toList.all isNameChar then .ok ⟨name, Literal.read value⟩
      else .error (.invalidOverride (String.ofList (name.toList ++ '=' :: value))) := by
  have unmarked : '=' ∉ name.toList := fun member =>
    absurd (by decide) (not_mem_separators_of_isWord (named.2 '=' member))
  have trimmed : trim name.toList = name.toList := by
    have solid : ∀ c ∈ name.toList, isBlank c = false :=
      fun c member => isBlank_eq_false_of_isWord (named.2 c member)
    exact IsTrimmed.trim_eq ⟨fun c member => solid c (List.mem_of_mem_head? member),
      fun c member => solid c (List.mem_of_mem_getLast? member)⟩
  have bare : dropSigil name.toList = name.toList := by
    unfold dropSigil
    split
    · rename_i rest same
      cases named.2 '$' (same ▸ List.mem_cons_self)
    · rfl
  rw [read, String.toList_ofList, cutAt?_append unmarked]
  dsimp only
  rw [trimmed, bare, String.ofList_toList]
  by_cases accepted : name.toList.all isNameChar = true
  · rw [if_pos ⟨named.1, accepted⟩, if_pos accepted]
  · rw [if_neg fun both => accepted both.2, if_neg accepted]

end CommandLine.Override

/-- The three ways to give a variable a value agree.  What a declaration accepts as a value is what
the literal is read as: behind a declaration that is not followed by another one of the variable,
behind an assignment that has been compiled and run, and in an override, if overrides admit the
name. -/
theorem written_value_agrees {σ : Type} {registry : Registry σ}
    (builtin : registry.get? Command.assignName = some Command.assignment)
    {name : String} (named : IsName name) {source : Chars} (written : IsWrittenValue source)
    (oneLine : '\n' ∉ source) :
    (∀ store before after, (∀ later ∈ after, ¬ Declares later name) →
      (declare store (before ++ assignmentSource name source :: after)).get? name =
        some (Literal.read source)) ∧
    (∀ store : Store, store.contains name = true → ∃ call,
      (Scope.ofWorld registry store).readCommand (assignmentSource name source) = .ok call ∧
      ∀ world, registry.call call world =
        (.ok none, { world with store := world.store.insert name (Literal.read source) })) ∧
    CommandLine.Override.read (String.ofList (name.toList ++ '=' :: source)) =
      if name.toList.all CommandLine.Override.isNameChar then .ok ⟨name, Literal.read source⟩
      else .error (.invalidOverride (String.ofList (name.toList ++ '=' :: source))) := by
  refine ⟨fun store before after silent => ?_, fun store defined => ?_, ?_⟩
  · have read := Declaration.read?_assignmentSource named written oneLine
    exact get?_declare_iff.mpr (Or.inl ⟨before, _, after, rfl, read, silent⟩)
  · exact ⟨assignmentCall name (Literal.read source),
      readCommand_assignmentSource builtin named written oneLine defined,
      call_assignmentCall builtin _⟩
  · exact CommandLine.Override.read_of_isName named source

/-- Between quotes, a numeral is a text in all three. -/
theorem written_value_agrees_on_quoted_numeral :
    (declare .empty ["$Gold = 1".toList, "$Gold = \"007\"".toList]).get? "Gold" =
      some (.text "007") ∧
    (∃ call,
      (Scope.ofWorld (Registry.builtin : Registry Unit)
        (NameMap.ofList [("Gold", .integer 3)])).readCommand "$Gold = \"007\"".toList = .ok call ∧
      ∀ world : World Unit, Registry.builtin.call call world =
        (.ok none, { world with store := world.store.insert "Gold" (.text "007") })) ∧
    CommandLine.Override.read "Gold=\"007\"" = .ok ⟨"Gold", .text "007"⟩ := by
  let source := "\"007\"".toList
  have closed : '"' ∉ "007".toList := by decide
  have written : IsWrittenValue source := .quoted closed
  have named : IsName "Gold" := by decide +kernel
  have builtin : (Registry.builtin : Registry Unit).get? Command.assignName =
      some Command.assignment := by
    rfl
  have line : assignmentSource "Gold" source = "$Gold = \"007\"".toList := by decide +kernel
  have value : Literal.read source = .text "007" := by decide +kernel
  obtain ⟨declared, assigned, overridden⟩ :=
    written_value_agrees builtin named written (by decide)
  rw [line, value] at declared assigned
  rw [value] at overridden
  refine ⟨declared .empty ["$Gold = 1".toList] [] (by simp), assigned _ (by decide +kernel), ?_⟩
  exact overridden.trans (if_pos (by decide +kernel))

end Parley
