import Mathlib.Data.List.Basic
import Parley.Outcome
import Parley.Proofs.Text.Endings
import Parley.Script.OptionLine

/-!
# Option lines are read back

An option is written with its condition in front of its text, and with the end marker and its
command block behind it.  Both the condition and the block stand in parentheses, and they are told
apart by their places: the block is the last group of the line, and there is text in front of it;
the condition is the group that opens the line, and there is text behind it.
-/

namespace Parley.Script.OptionLine

open Parley.Text

/-! ## Sources -/

/-- What an option line is written from. -/
structure Layout where
  condition : Option Chars
  text : Chars
  terminal : Bool
  /-- The source of the command block. -/
  block : Option Chars

/-- The source of a condition. -/
def conditionSource : Option Chars → Chars
  | some condition => '(' :: (ifWord ++ ' ' :: condition ++ [')', ' '])
  | none => []

namespace Layout

/-- The source of an option line, without its mark and its command block. -/
def offered (layout : Layout) : Chars :=
  conditionSource layout.condition ++ (layout.text ++
    if layout.terminal then ' ' :: endMarker else [])

/-- The source of an option line. -/
def source (layout : Layout) : Chars :=
  '>' :: ' ' :: withFinalGroup layout.offered layout.block

/-- An option line that can be written. -/
structure IsWritable (layout : Layout) : Prop where
  condition : ∀ condition ∈ layout.condition,
    condition ≠ [] ∧ IsTrimmed condition ∧ Balanced condition
  nonempty : layout.text ≠ []
  trimmed : IsTrimmed layout.text
  flat : ∀ c ∈ layout.text, isFlat c = true
  unmarked : ¬ endMarker <:+ layout.text
  block : ∀ block ∈ layout.block, Balanced block

end Layout

/-! ## The end marker -/

theorem takeEndMarker_append (text : Chars) :
    takeEndMarker (text ++ endMarker) = (trimEnd text, true) := by
  have found : dropEnd? endMarker (text ++ endMarker) = some text :=
    List.isSuffixOf?_eq_some_iff_append_eq.mpr rfl
  rw [takeEndMarker, found]

theorem takeEndMarker_of_not_suffix {text : Chars} (unmarked : ¬ endMarker <:+ text) :
    takeEndMarker text = (text, false) := by
  unfold takeEndMarker
  split
  · rename_i rest found
    exact absurd ⟨rest, List.append_eq_of_isSuffixOf?_eq_some found⟩ unmarked
  · rfl

/-! ## The condition -/

/-- A blank behind the word keeps what follows from being taken for the word again. -/
theorem dropRepeated_ifWord (text : Chars) :
    dropRepeated ifWord (ifWord ++ ' ' :: text) = ' ' :: text := by
  have first : ifWord.isPrefixOf? (ifWord ++ ' ' :: text) = some (' ' :: text) :=
    List.isPrefixOf?_eq_some_iff_append_eq.mpr rfl
  have second : ifWord.isPrefixOf? (' ' :: text) = none := rfl
  have length : (ifWord ++ ' ' :: text).length = text.length + 3 := by simp [ifWord]
  rw [dropRepeated, length, dropRepeated.go, first]
  dsimp only
  rw [dropRepeated.go, second]

theorem takeCondition_source {condition : Chars} (nonempty : condition ≠ [])
    (trimmed : IsTrimmed condition) (balanced : Balanced condition) (text : Chars) :
    takeCondition (conditionSource (some condition) ++ text) =
      .ok (some condition, trim text) := by
  have opens : "(if".toList.isPrefixOf (conditionSource (some condition) ++ text) = true := rfl
  have group : leadingGroup? (conditionSource (some condition) ++ text) =
      some (ifWord ++ ' ' :: condition, ' ' :: text) := by
    refine leadingGroup?_eq_some_iff.mpr ⟨by simp [conditionSource], ?_⟩
    have word : Balanced (ifWord ++ [' ']) := by decide
    have whole := word.append balanced
    rwa [List.append_assoc] at whole
  have inside : trim (dropRepeated ifWord (ifWord ++ ' ' :: condition)) = condition := by
    rw [dropRepeated_ifWord, trim_cons_blank rfl, trimmed.trim_eq]
  have behind : trim (' ' :: text) = trim text := trim_cons_blank rfl text
  rw [takeCondition, if_pos opens, group]
  simp only [inside, behind, if_neg nonempty]

theorem takeCondition_of_head {text : Chars} (other : text.head? ≠ some '(') :
    takeCondition text = .ok (none, text) := by
  refine if_neg fun opens => other ?_
  obtain ⟨rest, rfl⟩ := List.isPrefixOf_iff_prefix.mp opens
  rfl

/-! ## Reading -/

namespace Layout.IsWritable

variable {layout : Layout} (writable : layout.IsWritable)

include writable

theorem balanced_offered : Balanced layout.offered := by
  have condition : Balanced (conditionSource layout.condition) := by
    rcases conditional : layout.condition with _ | condition
    · exact Balanced.nil
    · have word : Balanced (ifWord ++ [' ']) := by decide
      have inside := word.append (writable.condition condition conditional).2.2
      have blank : Balanced [' '] := by decide
      have whole := inside.grouped.append blank
      simpa [conditionSource] using whole
  have marker : Balanced (if layout.terminal then ' ' :: endMarker else []) := by
    cases layout.terminal <;> decide
  exact condition.append ((Balanced.of_flat writable.flat).append marker)

theorem exists_last_offered : ∃ c ∈ layout.offered.getLast?, isBlank c = false ∧ c ≠ ')' := by
  rw [offered, List.getLast?_append]
  cases layout.terminal with
  | true =>
      have last : (' ' :: endMarker).getLast? = some ']' := by decide +kernel
      refine ⟨']', ?_, rfl, by decide⟩
      rw [List.getLast?_append, if_pos rfl, last]
      rfl
  | false =>
      obtain ⟨c, last, solid⟩ :=
        exists_last_of_flat writable.nonempty writable.flat writable.trimmed.last
      exact ⟨c, by simp [Option.mem_def.mp last], solid⟩

theorem isTrimmed_offered : IsTrimmed layout.offered where
  head c member := by
    rcases conditional : layout.condition with _ | condition
    · obtain ⟨d, rest, same⟩ := List.exists_cons_of_ne_nil writable.nonempty
      refine writable.trimmed.head c ?_
      simpa [offered, conditional, conditionSource, same] using member
    · simp only [offered, conditional, conditionSource, List.cons_append] at member
      cases member
      rfl
  last c member := by
    obtain ⟨d, last, solid, -⟩ := writable.exists_last_offered
    cases last.symm.trans member
    exact solid

/-- The mark and the blank behind it are no part of an option. -/
theorem body_source : body layout.source = withFinalGroup layout.offered layout.block := by
  have trimmed : IsTrimmed (withFinalGroup layout.offered layout.block) := by
    cases layout.block with
    | none => exact writable.isTrimmed_offered
    | some block =>
        have nonempty : layout.offered ≠ [] := by
          obtain ⟨c, last, -⟩ := writable.exists_last_offered
          rintro empty
          rw [empty] at last
          cases last
        have whole := writable.isTrimmed_offered.join (.single (c := ')') rfl) nonempty
          (by decide) (' ' :: '(' :: block)
        simpa [withFinalGroup] using whole
  rw [source, body, trim_cons_blank rfl, trimmed.trim_eq]

/-- The end marker is found exactly where it has been written. -/
theorem takeEndMarker_offered :
    takeEndMarker layout.offered =
      (conditionSource layout.condition ++ layout.text, layout.terminal) := by
  have last : ∀ c ∈ (conditionSource layout.condition ++ layout.text).getLast?,
      isBlank c = false := by
    intro c member
    rw [List.getLast?_append, List.getLast?_eq_some_getLast writable.nonempty] at member
    cases member
    exact writable.trimmed.last _ (List.getLast?_eq_some_getLast writable.nonempty)
  rw [offered, ← List.append_assoc]
  cases layout.terminal with
  | true =>
      have blank : conditionSource layout.condition ++ layout.text ++ ' ' :: endMarker =
          conditionSource layout.condition ++ layout.text ++ [' '] ++ endMarker := by simp
      rw [if_pos rfl, blank, takeEndMarker_append, trimEnd_append_blank _ rfl,
        trimEnd_of_last last]
  | false =>
      have unmarked : ¬ endMarker <:+ conditionSource layout.condition ++ layout.text := by
        rcases layout.condition with _ | condition
        · exact writable.unmarked
        · have blank := not_suffix_of_blank (by decide) writable.unmarked
            ('(' :: (ifWord ++ ' ' :: condition ++ [')']))
          simpa [conditionSource] using blank
      rw [if_neg Bool.false_ne_true, List.append_nil, takeEndMarker_of_not_suffix unmarked]

/-- The condition is the group that opens the line, if one does. -/
theorem takeCondition_offered :
    takeCondition (conditionSource layout.condition ++ layout.text) =
      .ok (layout.condition, layout.text) := by
  rcases conditional : layout.condition with _ | condition
  · refine takeCondition_of_head fun opens => ?_
    have flat := isFlat_iff.mp (writable.flat '(' (List.mem_of_mem_head? opens))
    exact flat.2.1 rfl
  · obtain ⟨nonempty, trimmed, balanced⟩ := writable.condition condition conditional
    rw [takeCondition_source nonempty trimmed balanced, writable.trimmed.trim_eq]

end Layout.IsWritable

/-- An option line is read back from its source, whichever of its parts there are: the group that
opens it is the condition and never the command block, and the group that ends it is the command
block and never the condition. -/
theorem reads_back_option_line {layout : Layout} (writable : layout.IsWritable) :
    read layout.source = .ok {
      text := String.ofList layout.text
      condition := layout.condition
      block := layout.block
      terminal := layout.terminal } := by
  have group := takeFinalGroup_withFinalGroup writable.balanced_offered
    writable.exists_last_offered writable.block
  simp only [read, writable.body_source, group, writable.takeEndMarker_offered,
    writable.takeCondition_offered, ok_bind]
  exact if_neg writable.nonempty

/-- Groups and parentheses between quotes within the condition and the block, a condition that
begins like another one, and an end marker in the middle of the text. -/
theorem reads_back_option_with_marks_inside :
    read ("> (if if(\"(\") and $met) Leave [[end]] now. [[end]] " ++
        "(Print(\")\"); Wave(1, (2)))").toList =
      .ok ⟨"Leave [[end]] now.", some "if(\"(\") and $met".toList,
        some "Print(\")\"); Wave(1, (2))".toList, true⟩ := by
  let layout : Layout := {
    condition := some "if(\"(\") and $met".toList
    text := "Leave [[end]] now.".toList
    terminal := true
    block := some "Print(\")\"); Wave(1, (2))".toList }
  have writable : layout.IsWritable := {
    condition := by
      rintro _ ⟨⟩
      exact ⟨by decide +kernel, isTrimmed_of_trim (by decide +kernel), by decide +kernel⟩
    nonempty := by decide +kernel
    trimmed := isTrimmed_of_trim (by decide +kernel)
    flat := List.all_eq_true.mp (by decide +kernel)
    unmarked := by decide +kernel
    block := by
      rintro _ ⟨⟩
      decide +kernel }
  have source : layout.source = ("> (if if(\"(\") and $met) Leave [[end]] now. [[end]] " ++
      "(Print(\")\"); Wave(1, (2)))").toList := by
    decide +kernel
  have found := reads_back_option_line writable
  exact (congrArg read source.symm).trans (found.trans (by decide +kernel))

end Parley.Script.OptionLine
