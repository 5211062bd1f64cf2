import Parley.Value.Literal
import Parley.Proofs.Text.Trimming
import Parley.Proofs.Text.Words

/-!
# Literals and quotes

A number and a truth value are written without quotes and without parentheses, so whatever has
one of these in it is read as a text.  Taking quotes off leaves those inside, and a text between
quotes is read as what stands between them.
-/

namespace Parley.Literal

open Parley.Text

variable {raw : Chars}

theorem flat_of_readInt64? {value : Int64} (found : Number.readInt64? raw = some value) :
    ∀ c ∈ raw, isFlat c = true := by
  unfold Number.readInt64? at found
  split at found
  · rename_i number foundNumber
    obtain ⟨count, foundDigits, -⟩ := Option.map_eq_some_iff.mp foundNumber
    have digits : ∀ c ∈ (Number.takeSign raw).2, isFlat c = true := by
      obtain ⟨-, digits⟩ := Number.digits_of_readNat? foundDigits
      exact fun c member => isFlat_of_isDigit (digits c member)
    intro c member
    rcases Number.mem_takeSign member with rfl | rfl | unsigned
    · rfl
    · rfl
    · exact digits c unsigned
  · cases found

theorem flat_of_readFloat? {value : Number.Binary64} (found : readFloat? raw = some value) :
    ∀ c ∈ raw, isFlat c = true := by
  unfold readFloat? at found
  split at found
  · rename_i shaped
    intro c member
    have numeral := List.all_eq_true.mp (Bool.and_eq_true_iff.mp shaped).2 c member
    refine isFlat_iff.mpr ⟨?_, ?_, ?_⟩ <;> rintro rfl <;> cases numeral
  · cases found

theorem flat_of_readBool? {value : Bool} (found : readBool? raw = some value) :
    ∀ c ∈ raw, isFlat c = true := by
  have letters : ∀ c ∈ raw, c.toLower ∈ "truefalse".toList := by
    intro c member
    have lowered := List.mem_map_of_mem (f := Char.toLower) member
    simp only [readBool?] at found
    split at found
    · rename_i same
      rw [same] at lowered
      exact List.mem_append_left "false".toList lowered
    · split at found
      · rename_i same
        rw [same] at lowered
        exact List.mem_append_right "true".toList lowered
      · cases found
  intro c member
  have letter := letters c member
  refine isFlat_iff.mpr ⟨?_, ?_, ?_⟩ <;> rintro rfl <;> exact absurd letter (by decide)

/-- Taking quotes off does not make a text balanced. -/
theorem exists_not_isFlat_dropQuotes (unbalanced : ¬ Balanced raw) :
    ∃ c ∈ dropQuotes raw, isFlat c = false := by
  unfold dropQuotes
  split
  · rename_i rest
    split
    · rename_i closes
      refine Classical.byContradiction fun none => unbalanced ?_
      obtain ⟨inner, rfl⟩ := List.getLast?_eq_some_iff.mp closes
      rw [List.dropLast_concat] at none
      exact Balanced.quoted fun member => none ⟨'"', member, rfl⟩
    · exact Balanced.exists_not_isFlat unbalanced
  · exact Balanced.exists_not_isFlat unbalanced

/-- What stands between quotes is a text, whatever it looks like. -/
theorem read_quoted (content : Chars) :
    read ('"' :: (content ++ ['"'])) = .text (String.ofList content) := by
  have trimmed : trim ('"' :: (content ++ ['"'])) = '"' :: (content ++ ['"']) :=
    (isTrimmed_quoted content).trim_eq
  have jagged : ¬ ∀ c ∈ '"' :: (content ++ ['"']), isFlat c = true := fun flat => by
    cases flat '"' List.mem_cons_self
  simp only [read, trimmed]
  split
  · rename_i found
    exact absurd (flat_of_readInt64? found) jagged
  · split
    · rename_i found
      exact absurd (flat_of_readFloat? found) jagged
    · split
      · rename_i found
        exact absurd (flat_of_readBool? found) jagged
      · rw [dropQuotes_quoted]

end Parley.Literal
