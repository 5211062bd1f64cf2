import Parley.Json
import Parley.Proofs.Number.Integer
import Parley.Value.Literal

/-!
# Faithful printers

A compact text can be read back in one way only if the strings and numbers in it can.  A printer is
faithful if a string opens with a quote and shows where it ends, integers are decimal, and finite
floating-point numbers are numerals which differ where the numbers do and show by a point or an
exponent that they are no integers.
-/

namespace Parley.Number

open Parley.Text

theorem isNumeralChar_of_readInteger? {text : Chars} {number : Int}
    (read : readInteger? text = some number) : ∀ c ∈ text, Literal.isNumeralChar c = true := by
  intro c member
  rcases sign_or_digit_of_readInteger? read c member with rfl | rfl | digit
  · rfl
  · rfl
  · simp [Literal.isNumeralChar, digit]

end Parley.Number

namespace Parley.Json

open Parley.Number
open Parley.Text

/-- The strings and numbers of a printer are read in one way only. -/
structure Printer.IsFaithful (printer : Printer) : Prop where
  /-- A string opens with a quote. -/
  opens : ∀ text, ∃ others, printer.string text = '"' :: others
  /-- A string shows where it ends and which string it is. -/
  string : ∀ {text other : String} {rest rest' : Chars},
    printer.string text ++ rest = printer.string other ++ rest' → text = other ∧ rest = rest'
  /-- Integers are decimal. -/
  integer : ∀ number, readInteger? (printer.integer number) = some number
  /-- Finite floating-point numbers that differ are written differently. -/
  real : ∀ {number other : Binary64}, number.isFinite = true → other.isFinite = true →
    printer.real number = printer.real other → number = other
  /-- Finite floating-point numbers are numerals. -/
  numeral : ∀ {number : Binary64}, number.isFinite = true →
    ∀ c ∈ printer.real number, Literal.isNumeralChar c = true
  /-- Finite floating-point numbers have a point or an exponent. -/
  mark : ∀ {number : Binary64}, number.isFinite = true →
    ∃ c ∈ printer.real number, c = '.' ∨ c = 'e' ∨ c = 'E'

namespace Printer.IsFaithful

variable {printer : Printer} (faithful : printer.IsFaithful) {number : Binary64}

include faithful

theorem isNumeralChar_integer (value : Int) :
    ∀ c ∈ printer.integer value, Literal.isNumeralChar c = true :=
  isNumeralChar_of_readInteger? (faithful.integer value)

theorem integer_ne_nil (value : Int) : printer.integer value ≠ [] := by
  intro none
  have read := faithful.integer value
  rw [none] at read
  cases read

theorem integer_injective : Function.Injective printer.integer := by
  intro value other same
  have read := faithful.integer other
  rw [← same, faithful.integer value] at read
  exact Option.some.inj read

theorem real_ne_nil (finite : number.isFinite = true) : printer.real number ≠ [] := by
  obtain ⟨c, member, -⟩ := faithful.mark finite
  exact List.ne_nil_of_mem member

theorem real_ne_integer (finite : number.isFinite = true) (value : Int) :
    printer.real number ≠ printer.integer value := by
  intro same
  obtain ⟨c, member, mark⟩ := faithful.mark finite
  rw [same] at member
  rcases sign_or_digit_of_readInteger? (faithful.integer value) c member with rfl | rfl | digit
  · rcases mark with mark | mark | mark <;> cases mark
  · rcases mark with mark | mark | mark <;> cases mark
  · rcases mark with rfl | rfl | rfl <;> cases digit

end Printer.IsFaithful

end Parley.Json
