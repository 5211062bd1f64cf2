import Parley.Number.Shortest

/-!
# Layouts of floating-point numbers

A layout says how the digits of a number become text: where positional notation
ends, what follows a whole number, how an exponent is written and which of two
equally near decimals is taken.  The layouts in use stand where their output is
written.
-/

namespace Parley.Number

open Parley.Text

/-- The decisions of a format for finite numbers. -/
structure Layout where
  /-- Which of two equally near decimals is written. -/
  tie : Tie
  /-- The least and the greatest exponent of the leading digit that is written
  positionally; without bounds every number is. -/
  positional : Option (Int × Int)
  /-- What follows a whole number in positional notation. -/
  wholeTail : String
  /-- What stands before an exponent that is not negative. -/
  exponentPlus : String

namespace Layout

/-- Remove the zeros at the end of a digit sequence and count them. -/
def dropZeros (digits : Chars) : Chars × Nat :=
  let zeros := digits.reverse.takeWhile (· == '0')
  (digits.take (digits.length - zeros.length), zeros.length)

/-- Digits and the exponent of the last one, in positional notation. -/
def positionalText (layout : Layout) (digits : Chars) (last : Int) : Chars :=
  let leading : Int := last + digits.length - 1
  if 0 ≤ last then
    digits ++ List.replicate last.toNat '0' ++ layout.wholeTail.toList
  else if 0 ≤ leading then
    digits.take (leading.toNat + 1) ++ '.' :: digits.drop (leading.toNat + 1)
  else
    '0' :: '.' :: List.replicate (-leading - 1).toNat '0' ++ digits

/-- Digits and the exponent of the leading one, with that exponent written. -/
def exponentText (layout : Layout) (digits : Chars) (leading : Int) : Chars :=
  let fraction := digits.drop 1
  digits.take 1 ++ (if fraction.isEmpty then [] else '.' :: fraction) ++
    'e' :: (if leading < 0 then [] else layout.exponentPlus.toList) ++ integerText leading

/-- The text of a magnitude. -/
def magnitudeText (layout : Layout) (rank : Nat) : Chars :=
  let (number, exponent) := Shortest.digits layout.tie rank
  if number = 0 then '0' :: layout.wholeTail.toList
  else
    let (digits, zeros) := dropZeros (natDigits number)
    let last := exponent + zeros
    let leading := last + digits.length - 1
    match layout.positional with
    | some (least, greatest) =>
        if least ≤ leading ∧ leading ≤ greatest then layout.positionalText digits last
        else layout.exponentText digits leading
    | none => layout.positionalText digits last

/-- The text of a finite number, with a minus in front of a negative one, zero
included. -/
def finiteText (layout : Layout) (negative : Bool) (rank : Nat) : Chars :=
  if negative then '-' :: layout.magnitudeText rank else layout.magnitudeText rank

end Layout

end Parley.Number
