import Parley.Number.Binary64

/-!
# The shortest decimal of a floating-point number

Of all decimals that read back as a given number, the one with the fewest digits
is written, and of several with equally few digits the nearest.  The search goes
through the powers of ten from coarse to fine.  On each it tests the two
multiples next to the number, by reading them.  The first power with a hit wins.
If two decimals are equally near, a format's tie rule decides.

Seventeen digits are always enough.  Should the search nevertheless end without
a hit, the exact decimal expansion of the number is taken, so that what is
written is never another number.
-/

namespace Parley.Number

/-- Which of two equally near decimals is written. -/
inductive Tie where
  /-- The one of greater magnitude. -/
  | away
  /-- The one whose last digit is even. -/
  | even
  deriving DecidableEq, Repr

namespace Shortest

/-- A positive quotient that equals the magnitude of a given rank. -/
def magnitude (rank : Nat) : Nat × Nat :=
  (Binary64.significand rank * Nat.pow 2 (Binary64.unitExponent rank).toNat,
    Nat.pow 2 (-Binary64.unitExponent rank).toNat)

/-- Whether a decimal reads back as the nonnegative number of a given rank. -/
def readsBack (rank : Nat) (digits : Nat) (exponent : Int) : Bool :=
  Binary64.ofDecimal ⟨false, digits, exponent⟩ == Binary64.ofRank false rank

/-- The nearer of two neighbouring multiples of a power of ten around a
quotient; `lower` is the one below. -/
def nearer (tie : Tie) (numerator denominator lower : Nat) : Nat :=
  match compare (2 * numerator) ((2 * lower + 1) * denominator) with
  | .lt => lower
  | .gt => lower + 1
  | .eq =>
      match tie with
      | .away => lower + 1
      | .even => if lower % 2 = 0 then lower else lower + 1

/-- The multiple of `10 ^ exponent` to write for a rank, if one of the two next
to it reads back. -/
def onGrid? (tie : Tie) (rank : Nat) (exponent : Int) : Option Nat :=
  let (top, bottom) := magnitude rank
  let numerator := top * Nat.pow 10 (-exponent).toNat
  let denominator := bottom * Nat.pow 10 exponent.toNat
  let lower := numerator / denominator
  match readsBack rank lower exponent, readsBack rank (lower + 1) exponent with
  | true, true => some (nearer tie numerator denominator lower)
  | true, false => some lower
  | false, true => some (lower + 1)
  | false, false => none

/-- Try the powers of ten from `exponent` downward, at most `steps` of them. -/
def search (tie : Tie) (rank : Nat) : Nat → Int → Option (Nat × Int)
  | 0, _ => none
  | steps + 1, exponent =>
      match onGrid? tie rank exponent with
      | some digits => some (digits, exponent)
      | none => search tie rank steps (exponent - 1)

/-- An exponent whose power of ten exceeds the magnitude of a rank: a number
below `2 ^ k` is below ten to the power of `k` times the logarithm of two. -/
def coarsest (rank : Nat) : Int :=
  let bits : Int := Binary64.unitExponent rank + Nat.log2 (Binary64.significand rank) + 1
  bits * 30103 / 100000 + 1

/-- The exact decimal expansion of a rank: a power of two below one is a power
of five over a power of ten. -/
def expansion (rank : Nat) : Nat × Int :=
  let unit := Binary64.unitExponent rank
  (Binary64.significand rank * Nat.pow 2 unit.toNat * Nat.pow 5 (-unit).toNat,
    -((-unit).toNat : Int))

/-- Digits and exponent of the decimal to write for a rank. -/
def digits (tie : Tie) (rank : Nat) : Nat × Int :=
  if rank = 0 then (0, 0)
  else (search tie rank 20 (coarsest rank)).getD (expansion rank)

end Shortest

end Parley.Number
