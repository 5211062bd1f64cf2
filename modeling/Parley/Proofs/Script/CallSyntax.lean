import Parley.Script.Calls
import Parley.Proofs.Text.Groups
import Parley.Proofs.Text.Trimming
import Parley.Proofs.Text.Words

/-!
# The forms of a call

A source has the form of a call exactly if it is a name, blanks at most, and a text between
parentheses.  An operand is a run of characters without blanks and separators, or a text between
quotes.  Two operands with an operator between them have the form of a comparison, a variable
and an operand that of an assignment, and neither of these has the form of a call.
-/

namespace Parley.Script

open Parley.Text

namespace CallSyntax

variable {source name inner : Chars}

/-! ## Calls -/

/-- A parenthesis ends a name, and so do the blanks in front of it. -/
theorem name_and_group {gap : Chars} (words : ∀ c ∈ name, isWord c = true)
    (blanks : ∀ c ∈ gap, isBlank c = true) (rest : Chars) :
    (name ++ gap ++ '(' :: rest).takeWhile isWord = name ∧
      trimStart ((name ++ gap ++ '(' :: rest).dropWhile isWord) = '(' :: rest := by
  have stops : ∀ c ∈ (gap ++ '(' :: rest).head?, isWord c = false := by
    intro c member
    rcases word : isWord c with _ | _
    · rfl
    · cases gap with
      | nil =>
          cases member
          cases word
      | cons d gap =>
          cases member
          have blank := blanks c List.mem_cons_self
          rw [isBlank_eq_false_of_isWord word] at blank
          cases blank
  obtain ⟨taken, left⟩ := takeWhile_append_of_stop words stops
  rw [List.append_assoc, taken, left, trimStart_append_of_blank blanks]
  exact ⟨rfl, trimStart_cons_of_not_blank rfl _⟩

/-- A call is a name, blanks at most, and what stands between the next parenthesis and the
one that ends the source. -/
theorem call?_eq_some_iff :
    call? source = some (name, inner) ↔
      ∃ gap, source = name ++ gap ++ '(' :: (inner ++ [')']) ∧ name ≠ [] ∧
        (∀ c ∈ name, isWord c = true) ∧ (∀ c ∈ gap, isBlank c = true) ∧ '\n' ∉ inner := by
  constructor
  · intro found
    obtain ⟨gap, behind, blanks⟩ := exists_blanks_trimStart (source.dropWhile isWord)
    have words : ∀ c ∈ source.takeWhile isWord, isWord c = true :=
      List.all_eq_true.mp List.all_takeWhile
    have whole : source = source.takeWhile isWord ++ gap ++
        trimStart (source.dropWhile isWord) := by
      rw [List.append_assoc, ← behind, List.takeWhile_append_dropWhile]
    simp only [call?] at found
    split at found
    · rename_i group opens
      split at found
      · rename_i fits
        obtain ⟨named, closes, oneLine⟩ := fits
        cases found
        obtain ⟨inner, rfl⟩ := List.getLast?_eq_some_iff.mp closes
        rw [List.dropLast_concat] at oneLine ⊢
        rw [opens] at whole
        exact ⟨gap, whole, named, words, blanks, oneLine⟩
      · cases found
    · cases found
  · rintro ⟨gap, rfl, named, words, blanks, oneLine⟩
    obtain ⟨taken, opens⟩ := name_and_group words blanks (inner ++ [')'])
    rw [call?, taken, opens]
    simp [named, oneLine]

/-- Where no parenthesis follows the name, if there is one, there is no call. -/
theorem call?_eq_none (apart : source.takeWhile isWord ≠ [] →
    (trimStart (source.dropWhile isWord)).head? ≠ some '(') : call? source = none := by
  simp only [call?]
  split
  · rename_i group opens
    rw [if_neg]
    rintro ⟨named, -⟩
    exact apart named (by rw [opens]; rfl)
  · rfl

/-! ## Operands -/

/-- A source of an argument: a run of characters without blanks and separators, or a text of one
line between quotes. -/
inductive IsOperand : Chars → Prop
  | bare {text : Chars} (nonempty : text ≠ []) (solid : ∀ c ∈ text, isBlank c = false)
      (apart : ∀ c ∈ text, c ∉ separators) : IsOperand text
  | quoted {text : Chars} (closed : '"' ∉ text) (oneLine : '\n' ∉ text) :
      IsOperand ('"' :: (text ++ ['"']))

namespace IsOperand

variable {text : Chars} (operand : IsOperand text)

include operand

theorem ne_nil : text ≠ [] := by
  cases operand with
  | bare nonempty => exact nonempty
  | quoted => exact List.cons_ne_nil _ _

theorem isTrimmed : IsTrimmed text := by
  cases operand with
  | bare _ solid =>
      exact ⟨fun c member => solid c (List.mem_of_mem_head? member),
        fun c member => solid c (List.mem_of_mem_getLast? member)⟩
  | quoted => exact isTrimmed_quoted _

theorem balanced : Balanced text := by
  cases operand with
  | bare _ _ apart =>
      exact Balanced.of_flat fun c member => isFlat_of_not_mem_separators (apart c member)
  | quoted closed => exact Balanced.quoted closed

theorem oneLine : '\n' ∉ text := by
  cases operand with
  | bare _ solid =>
      intro member
      cases solid _ member
  | quoted _ oneLine =>
      simpa using oneLine

theorem head_ne_equals : text.head? ≠ some '=' := by
  cases operand with
  | bare _ _ apart =>
      intro begins
      exact apart '=' (List.mem_of_mem_head? begins) (by decide)
  | quoted =>
      simp

/-- An operand ends where a blank follows it or nothing does. -/
theorem operand?_append (rest : Chars) (ends : ∀ c ∈ rest.head?, isBlank c = true) :
    operand? (text ++ rest) = some (text, rest) := by
  cases operand with
  | bare nonempty solid apart =>
      have runs : ∀ c ∈ text, isOperandChar c = true := by
        intro c member
        have others : c ≠ '=' ∧ c ≠ '!' ∧ c ≠ '<' ∧ c ≠ '>' ∧ c ≠ '"' := by
          have other := apart c member
          refine ⟨?_, ?_, ?_, ?_, ?_⟩ <;> rintro rfl <;> exact other (by decide)
        simp [isOperandChar, solid c member, others]
      have stops : ∀ c ∈ rest.head?, isOperandChar c = false := by
        intro c member
        simp [isOperandChar, ends c member]
      obtain ⟨taken, left⟩ := takeWhile_append_of_stop runs stops
      unfold operand?
      split
      · rename_i same
        obtain ⟨d, tail, rfl⟩ := List.exists_cons_of_ne_nil nonempty
        cases same
        exact absurd (by decide) (apart '"' List.mem_cons_self)
      · dsimp only
        rw [taken, left, if_neg nonempty]
  | quoted closed =>
      rw [List.cons_append, List.append_assoc, operand?]
      exact congrArg _ (cutAt?_append closed rest)

/-- No parenthesis of a call follows an operand and a blank. -/
theorem call?_append_eq_none {rest : Chars} (apart : rest.head? ≠ some '(')
    (solid : ∀ c ∈ rest.head?, isBlank c = false) : call? (text ++ ' ' :: rest) = none := by
  cases operand with
  | quoted => exact call?_eq_none fun named => absurd (by rfl) named
  | bare _ solidText apartText =>
      refine call?_eq_none fun _ => ?_
      rw [List.dropWhile_append]
      split
      · have space : (' ' :: rest).dropWhile isWord = ' ' :: rest :=
          List.dropWhile_cons_of_neg (by decide)
        rw [space, trimStart_cons_blank rfl, trimStart_of_head solid]
        exact apart
      · rename_i some
        obtain ⟨c, tail, left⟩ :=
          List.exists_cons_of_ne_nil (mt List.isEmpty_iff.mpr some)
        have member : c ∈ text :=
          (List.dropWhile_suffix isWord).subset (left ▸ List.mem_cons_self)
        rw [left, List.cons_append, trimStart_cons_of_not_blank (solidText c member)]
        rintro begins
        cases begins
        exact apartText '(' member (by decide)

end IsOperand

/-! ## Comparisons and assignments -/

/-- The operators of comparisons. -/
def operators : List String :=
  ["==", "!=", "<=", ">=", "<", ">"]

section Infix

variable {left right argument : Chars} {operator : String}

theorem operator?_append (compares : operator ∈ operators) (rest : Chars) :
    operator? (operator.toList ++ ' ' :: rest) = some (operator, ' ' :: rest) := by
  simp only [operators, List.mem_cons, List.not_mem_nil, or_false] at compares
  rcases compares with rfl | rfl | rfl | rfl | rfl | rfl <;> rfl

/-- An operator begins with nothing that it could be taken for. -/
theorem head_operator (compares : operator ∈ operators) (rest : Chars) :
    (operator.toList ++ rest).head? ≠ some '(' ∧
      ∀ c ∈ (operator.toList ++ rest).head?, isBlank c = false := by
  simp only [operators, List.mem_cons, List.not_mem_nil, or_false] at compares
  rcases compares with rfl | rfl | rfl | rfl | rfl | rfl <;> exact ⟨by simp, by simp; decide⟩

theorem comparison?_eq_some (operand : IsOperand left) (other : IsOperand right)
    (compares : operator ∈ operators) :
    comparison? (left ++ ' ' :: (operator.toList ++ ' ' :: right)) =
      some (left, operator, right) := by
  obtain ⟨-, solid⟩ := head_operator compares (' ' :: right)
  have last := other.operand?_append [] (by simp)
  rw [List.append_nil] at last
  rw [comparison?, operand.operand?_append _ fun c member => by cases member; rfl]
  dsimp only
  rw [trimStart_cons_blank rfl, trimStart_of_head solid, operator?_append compares]
  dsimp only
  rw [trimStart_cons_blank rfl, trimStart_of_head other.isTrimmed.head, last]

theorem call?_comparison (operand : IsOperand left) (compares : operator ∈ operators) :
    call? (left ++ ' ' :: (operator.toList ++ ' ' :: right)) = none :=
  have begins := head_operator compares (' ' :: right)
  operand.call?_append_eq_none begins.1 begins.2

theorem assignment?_eq_some (named : name ≠ []) (words : ∀ c ∈ name, isWord c = true)
    (operand : IsOperand argument) :
    assignment? ('$' :: (name ++ ' ' :: '=' :: ' ' :: argument)) = some (name, argument) := by
  have stops : ∀ c ∈ (' ' :: '=' :: ' ' :: argument).head?, isWord c = false := by
    intro c member
    cases member
    rfl
  obtain ⟨taken, left⟩ := takeWhile_append_of_stop words stops
  have assigned : trimStart (' ' :: argument) = argument := by
    rw [trimStart_cons_blank rfl, trimStart_of_head operand.isTrimmed.head]
  simp only [assignment?]
  rw [taken, left, trimStart_cons_blank rfl, trimStart_cons_of_not_blank rfl]
  simp only [assigned]
  exact if_pos ⟨named, operand.ne_nil, operand.head_ne_equals, operand.oneLine⟩

theorem call?_reference (rest : Chars) : call? ('$' :: rest) = none :=
  call?_eq_none fun named => absurd (List.takeWhile_cons_of_neg (by decide)) named

end Infix

end CallSyntax

namespace Scope

variable {scope : Scope} {source : Chars} {call : Call}

theorem readCall?_eq_some_iff :
    scope.readCall? source = .ok (some call) ↔
      ∃ name inner, CallSyntax.call? source = some (name, inner) ∧
        call.name = String.ofList name ∧
        scope.readArguments (if trim inner = [] then [] else splitUnnested ',' (trim inner)) =
          .ok call.arguments := by
  unfold readCall?
  constructor
  · intro found
    split at found
    · cases found
    · rename_i name inner taken
      obtain ⟨arguments, read, same⟩ := bind_eq_ok_iff.mp found
      cases same
      exact ⟨name, inner, taken, rfl, read⟩
  · rintro ⟨name, inner, taken, named, read⟩
    rw [taken]
    refine bind_eq_ok_iff.mpr ⟨call.arguments, read, ?_⟩
    rw [← named]
    rfl

end Scope

end Parley.Script
