import Parley.Number.Integer

/-!
# Decimal numerals

A numeral is a sign, digits with at most one point among them, and an optional
exponent.  Reading keeps its exact value: a whole number of digits times a power
of ten.  Rounding that value to a floating-point number is another module's job.
-/

namespace Parley.Number

open Parley.Text

/-- The exact value `± digits · 10 ^ exponent`. -/
structure Decimal where
  negative : Bool
  digits : Nat
  exponent : Int
  deriving DecidableEq, Repr

namespace Decimal

/-- Read the exponent part of a numeral; no exponent part stands for zero. -/
def readExponent? : Chars → Option Int
  | [] => some 0
  | mark :: rest => if mark = 'e' ∨ mark = 'E' then readInteger? rest else none

/-- The digits after a point that opens the text, and what follows them. -/
def takeFraction : Chars → Chars × Chars
  | '.' :: rest => (rest.takeWhile Char.isDigit, rest.dropWhile Char.isDigit)
  | text => ([], text)

/-- Read a numeral.  There is at least one digit before or after the point. -/
def read? (text : Chars) : Option Decimal :=
  let (negative, unsigned) := takeSign text
  let whole := unsigned.takeWhile Char.isDigit
  let (fraction, rest) := takeFraction (unsigned.dropWhile Char.isDigit)
  if whole = [] ∧ fraction = [] then none
  else
    (readExponent? rest).map fun exponent =>
      ⟨negative, ofDigits (whole ++ fraction), exponent - fraction.length⟩

/-- A numeral with no digit at all is refused. -/
@[simp]
theorem read?_nil : read? [] = none :=
  rfl

end Decimal

end Parley.Number
