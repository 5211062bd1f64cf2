import Parley.Proofs.Script.CallSyntax
import Parley.Proofs.Text.Splitting
import Parley.Proofs.Value.Literal

/-!
# Calls and their parentheses

A source is read as a call if a name opens it, a parenthesis follows the name and another
one ends the source.  Whether these two belong together is not asked.  They do exactly if
the text between them is balanced; if they do not, one of the arguments that are read has
a quote or a parenthesis in it.  So what is written as two calls is read as one only with
an argument that shows it.
-/

namespace Parley

open Parley.Text

/-- An argument with a quote or a parenthesis in its text or in the name of its variable. -/
def Argument.IsJagged : Argument → Prop
  | .literal (.text text) => ∃ c ∈ text.toList, isFlat c = false
  | .literal _ => False
  | .reference name => ∃ c ∈ name.toList, isFlat c = false

/-! ## Literals -/

namespace Literal

variable {raw : Chars}

/-- What is not balanced is read as a text, and still has a quote or a parenthesis in it. -/
theorem isJagged_of_read (unbalanced : ¬ Balanced (trim raw)) :
    (Argument.literal (read raw)).IsJagged := by
  have other : ¬ ∀ c ∈ trim raw, isFlat c = true := fun flat => unbalanced (Balanced.of_flat flat)
  simp only [read]
  split
  · rename_i found
    exact absurd (flat_of_readInt64? found) other
  · split
    · rename_i found
      exact absurd (flat_of_readFloat? found) other
    · split
      · rename_i found
        exact absurd (flat_of_readBool? found) other
      · simpa [Argument.IsJagged] using exists_not_isFlat_dropQuotes unbalanced

end Literal

namespace Script

/-! ## Arguments -/

namespace Scope

variable {scope : Scope} {source : Chars} {argument : Argument}

/-- Blanks do not make a text balanced. -/
theorem not_balanced_trim (unbalanced : ¬ Balanced source) : ¬ Balanced (trim source) := by
  intro balanced
  obtain ⟨front, back, same, blanks⟩ := exists_blanks_trim source
  have flat : ∀ c ∈ front ++ back, isFlat c = true :=
    fun c member => isFlat_of_isBlank (blanks c member)
  have flatFront : Balanced front :=
    Balanced.of_flat fun c member => flat c (List.mem_append_left _ member)
  have flatBack : Balanced back :=
    Balanced.of_flat fun c member => flat c (List.mem_append_right _ member)
  exact unbalanced (same ▸ (flatFront.append balanced).append flatBack)

theorem isJagged_of_readArgument (unbalanced : ¬ Balanced source)
    (found : scope.readArgument source = .ok argument) : argument.IsJagged := by
  have trimmed := not_balanced_trim unbalanced
  unfold readArgument at found
  split at found
  · cases found
  · rename_i rest same
    dsimp only at found
    split at found
    · cases found
      rw [same] at trimmed
      obtain ⟨c, member, jagged⟩ := Balanced.exists_not_isFlat trimmed
      rcases List.mem_cons.mp member with rfl | member
      · cases jagged
      · exact ⟨c, by simpa using member, jagged⟩
    · cases found
  · cases found
    exact Literal.isJagged_of_read (by rwa [trim_trim])

/-- If the arguments are not balanced together, one of them is not. -/
theorem exists_isJagged_of_readArguments {arguments : List Argument}
    (unbalanced : ¬ Balanced source)
    (found : scope.readArguments (splitUnnested ',' source) = .ok arguments) :
    ∃ argument ∈ arguments, argument.IsJagged := by
  refine Classical.byContradiction fun none => unbalanced ?_
  rw [← intercalate_splitFrom ',' Nesting.top source]
  refine Balanced.intercalate (by decide) fun part member => ?_
  obtain ⟨argument, read, result⟩ := exists_of_mapM_eq_ok found part member
  exact Classical.byContradiction fun other =>
    none ⟨argument, result, isJagged_of_readArgument other read⟩

end Scope

/-! ## Calls -/

namespace CallSyntax

variable {source name inner : Chars}

/-- The parenthesis behind the name of a call is closed by the last character of the source. -/
def ClosesItself (source : Chars) : Prop :=
  ∃ inner, leadingGroup? (trimStart (source.dropWhile isWord)) = some (inner, [])

/-- What stands between the parenthesis behind the name and the last character. -/
def argumentText (source : Chars) : Chars :=
  ((trimStart (source.dropWhile isWord)).drop 1).dropLast

theorem argumentText_of_call? (found : call? source = some (name, inner)) :
    trimStart (source.dropWhile isWord) = '(' :: (inner ++ [')']) ∧
      argumentText source = inner := by
  obtain ⟨gap, rfl, -, words, blanks, -⟩ := call?_eq_some_iff.mp found
  have group := (name_and_group words blanks (inner ++ [')'])).2
  rw [argumentText, group]
  exact ⟨rfl, List.dropLast_concat⟩

/-- The two parentheses belong together exactly if the text between them is balanced. -/
theorem closesItself_iff_of_call? (found : call? source = some (name, inner)) :
    ClosesItself source ↔ Balanced inner := by
  rw [ClosesItself, (argumentText_of_call? found).1]
  constructor
  · rintro ⟨held, grouped⟩
    obtain ⟨same, balanced⟩ := leadingGroup?_eq_some_iff.mp grouped
    have whole : inner = held := List.append_cancel_right (List.cons.inj same).2
    rwa [whole]
  · intro balanced
    exact ⟨inner, leadingGroup?_eq_some_iff.mpr ⟨rfl, balanced⟩⟩

end CallSyntax

namespace Scope

variable {scope : Scope} {raw source : Chars} {call : Call}

/-- A source is read as a call: as a command or as a condition, from a name and from what stands
between parentheses. -/
def ReadsAsCall (scope : Scope) (raw : Chars) (call : Call) : Prop :=
  (scope.readCommand raw = .ok call ∨ scope.readCondition raw = .ok call) ∧
    scope.readCall? (trim raw) = .ok (some call)

/-- What is read as a call is its name, a parenthesis, the text of its arguments and a last
parenthesis.  The two parentheses belong together exactly if the text between them is balanced,
and where they do not, an argument has a quote or a parenthesis in it. -/
theorem closesItself_iff_of_readsAsCall (reads : scope.ReadsAsCall raw call) :
    let source := trim raw
    let inner := CallSyntax.argumentText source
    (∃ name gap, source = name ++ gap ++ '(' :: (inner ++ [')']) ∧
      call.name = String.ofList name ∧
      (∀ c ∈ name, isWord c = true) ∧ ∀ c ∈ gap, isBlank c = true) ∧
    (CallSyntax.ClosesItself source ↔ Balanced inner) ∧
    (¬ CallSyntax.ClosesItself source → ∃ argument ∈ call.arguments, argument.IsJagged) := by
  intro source inner
  obtain ⟨name, between, taken, named, read⟩ := readCall?_eq_some_iff.mp reads.2
  obtain ⟨gap, whole, -, words, blanks, -⟩ := CallSyntax.call?_eq_some_iff.mp taken
  have closes := CallSyntax.closesItself_iff_of_call? taken
  obtain rfl : inner = between := (CallSyntax.argumentText_of_call? taken).2
  refine ⟨⟨name, gap, whole, named, words, blanks⟩, closes, fun apart => ?_⟩
  have unbalanced : ¬ Balanced (trim inner) :=
    not_balanced_trim fun balanced => apart (closes.mpr balanced)
  have some : trim inner ≠ [] := fun empty => unbalanced (empty ▸ Balanced.nil)
  rw [if_neg some] at read
  exact exists_isJagged_of_readArguments unbalanced read

end Scope

/-! ## Two calls in one -/

/-- What there is to call where a host shows texts and looks for them. -/
def showingScope : Scope :=
  let shows := (Registry.builtin : Registry Unit).register "Show" [.exactly .text] none
    fun _ host => (.ok none, host)
  let looks := shows.register "Has" [.exactly .text] (some .boolean)
    fun _ host => (.ok (some (.boolean true)), host)
  .ofWorld looks .empty

/-- Parentheses and separators between quotes do not mislead. -/
theorem closesItself_of_quoted_parenthesis :
    let raw := " Show (\"one) two; (three\")".toList
    let call : Call := ⟨"Show", [.literal (.text "one) two; (three")]⟩
    showingScope.ReadsAsCall raw call ∧ CallSyntax.ClosesItself (trim raw) := by
  intro raw call
  have reads : showingScope.ReadsAsCall raw call :=
    ⟨.inl (by decide +kernel), by decide +kernel⟩
  have balanced : Balanced (CallSyntax.argumentText (trim raw)) := by decide +kernel
  exact ⟨reads, (Scope.closesItself_iff_of_readsAsCall reads).2.1.mpr balanced⟩

/-- Two commands without a separator are read as one, and so are two conditions with an operator
between them. -/
theorem not_closesItself_of_two_calls :
    let commands := "Show(\"one\") Show(\"two\")".toList
    let conditions := "Has(\"one\") == Has(\"two\")".toList
    (showingScope.ReadsAsCall commands ⟨"Show", [.literal (.text "one\") Show(\"two")]⟩ ∧
        ¬ CallSyntax.ClosesItself (trim commands)) ∧
      showingScope.ReadsAsCall conditions ⟨"Has", [.literal (.text "one\") == Has(\"two")]⟩ ∧
        ¬ CallSyntax.ClosesItself (trim conditions) := by
  intro commands conditions
  have taken : CallSyntax.call? (trim commands) =
      some ("Show".toList, "\"one\") Show(\"two\"".toList) := by decide +kernel
  have takenCondition : CallSyntax.call? (trim conditions) =
      some ("Has".toList, "\"one\") == Has(\"two\"".toList) := by decide +kernel
  refine ⟨⟨⟨.inl (by decide +kernel), by decide +kernel⟩, ?_⟩,
    ⟨.inr (by decide +kernel), by decide +kernel⟩, ?_⟩
  · rw [CallSyntax.closesItself_iff_of_call? taken]
    decide
  · rw [CallSyntax.closesItself_iff_of_call? takenCondition]
    decide

end Script

end Parley
