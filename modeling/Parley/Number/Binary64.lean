import Parley.Number.Decimal

/-!
# Binary floating-point numbers of 64 bits

The finite numbers of one sign are counted upward from zero: the number of rank
`r` is the `r`-th nonnegative one.  A rank below `2 ^ 52` is a subnormal number,
and every further block of `2 ^ 52` ranks doubles the distance between
neighbours.  Rank order is the order of magnitudes, so comparing numbers
compares ranks, and rounding a quotient is finding its rank.

There is one value that is not a number, and two zeros that compare equal.
-/

namespace Parley.Number

/-- The rank that the infinities would have: one more than the greatest finite
magnitude. -/
def Binary64.rankLimit : Nat := 2047 * Nat.pow 2 52

/-- A floating-point number: sign and rank of a finite one, or a special value. -/
inductive Binary64 where
  | finite (negative : Bool) (rank : Fin Binary64.rankLimit)
  | infinite (negative : Bool)
  | notANumber
  deriving DecidableEq

namespace Binary64

/-- The whole part of the magnitude of a given rank, in units of
`2 ^ unitExponent rank`. -/
def significand (rank : Nat) : Nat :=
  if rank < Nat.pow 2 52 then rank else Nat.pow 2 52 + rank % Nat.pow 2 52

/-- The power of two that the significand counts. -/
def unitExponent (rank : Nat) : Int :=
  if rank < Nat.pow 2 52 then -1074 else (rank / Nat.pow 2 52 : Nat) - 1075

/-- The quotient rounded to the nearest whole number, a half to the even one. -/
def roundHalfEven (numerator denominator : Nat) : Nat :=
  let quotient := numerator / denominator
  let rest := numerator % denominator
  if 2 * rest < denominator ∨ (2 * rest = denominator ∧ quotient % 2 = 0) then quotient
  else quotient + 1

/-- The exponent of the leading bit of a positive quotient. -/
def leadingExponent (numerator denominator : Nat) : Int :=
  let estimate : Int := (Nat.log2 numerator : Int) - Nat.log2 denominator
  if numerator * Nat.pow 2 (-estimate).toNat < denominator * Nat.pow 2 estimate.toNat then
    estimate - 1
  else estimate

/-- The rank nearest to a positive quotient, a half going to the even one.  It
may reach the limit or pass it. -/
def nearestRank (numerator denominator : Nat) : Nat :=
  let unit : Int := max (leadingExponent numerator denominator - 52) (-1074)
  (unit + 1074).toNat * Nat.pow 2 52 +
    roundHalfEven (numerator * Nat.pow 2 (-unit).toNat) (denominator * Nat.pow 2 unit.toNat)

/-- The finite number of a rank, or the infinity if the rank is out of range. -/
def ofRank (negative : Bool) (rank : Nat) : Binary64 :=
  if bound : rank < rankLimit then finite negative ⟨rank, bound⟩ else infinite negative

/-- The number nearest to a nonnegative quotient with a sign. -/
def ofQuotient (negative : Bool) (numerator denominator : Nat) : Binary64 :=
  if numerator = 0 then ofRank negative 0
  else ofRank negative (nearestRank numerator denominator)

/-- The number nearest to a decimal.  Decimals whose leading digit stands for
`10 ^ 310` or more are out of range, and those below `10 ^ (-330)` are nearest
to zero, whatever their digits are. -/
def ofDecimal (decimal : Decimal) : Binary64 :=
  let places : Int := decimal.exponent + (Number.natDigits decimal.digits).length
  if decimal.digits = 0 then ofRank decimal.negative 0
  else if 310 < places then infinite decimal.negative
  else if places < -330 then ofRank decimal.negative 0
  else
    ofQuotient decimal.negative (decimal.digits * Nat.pow 10 decimal.exponent.toNat)
      (Nat.pow 10 (-decimal.exponent).toNat)

/-- Read a numeral as the floating-point number nearest to it. -/
def read? (text : Text.Chars) : Option Binary64 :=
  (Decimal.read? text).map ofDecimal

/-- Whether two numbers are equal as numbers: zeros are equal whatever their
sign, and what is not a number equals nothing, not even itself. -/
def equal : Binary64 → Binary64 → Bool
  | finite negative rank, finite negative' rank' =>
      rank == rank' && (negative == negative' || rank.val == 0)
  | infinite negative, infinite negative' => negative == negative'
  | _, _ => false

/-- The place of a number on the line of all ranks, negative ones below zero. -/
def place? : Binary64 → Option Int
  | finite negative rank => some (if negative then -(rank.val : Int) else rank.val)
  | infinite negative => some (if negative then -(rankLimit : Int) else rankLimit)
  | notANumber => none

/-- The order of two numbers; none if one of them is not a number. -/
def order? (left right : Binary64) : Option Ordering :=
  match left.place?, right.place? with
  | some first, some second => some (compare first second)
  | _, _ => none

@[simp]
theorem equal_notANumber_left (number : Binary64) : equal notANumber number = false := by
  cases number <;> rfl

@[simp]
theorem equal_notANumber_right (number : Binary64) : equal number notANumber = false := by
  cases number <;> rfl

@[simp]
theorem order?_notANumber_left (number : Binary64) : order? notANumber number = none := by
  cases number <;> rfl

@[simp]
theorem order?_notANumber_right (number : Binary64) : order? number notANumber = none := by
  cases number <;> rfl

/-- Whether a number is neither infinite nor a special value. -/
def isFinite : Binary64 → Bool
  | finite _ _ => true
  | _ => false

end Binary64

end Parley.Number
