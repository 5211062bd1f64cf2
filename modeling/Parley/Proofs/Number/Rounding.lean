import Mathlib.Data.Int.Log
import Mathlib.Data.Rat.Floor
import Mathlib.Tactic.FieldSimp
import Mathlib.Tactic.NormNum
import Mathlib.Tactic.Positivity
import Mathlib.Tactic.Ring
import Parley.Proofs.Number.Integer
import Parley.Number.Shortest

/-!
# Rounding depends on the magnitude alone

A decimal is rounded through two natural numbers whose quotient is its magnitude.  Which two they
are does not matter: decimals of one magnitude round to one floating-point number, however many
zeros they are written with.  And a number that is itself a floating-point number is rounded to
itself.
-/

namespace Parley.Number

/-- The magnitude that a decimal stands for. -/
def Decimal.magnitude (decimal : Decimal) : ℚ :=
  decimal.digits * (10 : ℚ) ^ decimal.exponent

/-- An integer power, as a quotient of two natural numbers one of which is one. -/
theorem pow_toNat_div_pow_toNat (base : Nat) (positive : 0 < base) (exponent : Int) :
    ((base ^ exponent.toNat : Nat) : ℚ) / (base ^ (-exponent).toNat : Nat) =
      (base : ℚ) ^ exponent := by
  have nonzero : (base : ℚ) ≠ 0 := by exact_mod_cast positive.ne'
  have split : exponent = (exponent.toNat : Int) - ((-exponent).toNat : Int) := by omega
  conv_rhs => rw [split]
  rw [zpow_sub₀ nonzero, zpow_natCast, zpow_natCast]
  push_cast
  rfl

/-- The two numbers through which a decimal is rounded have its magnitude as their quotient. -/
theorem Decimal.magnitude_eq_div (decimal : Decimal) :
    decimal.magnitude = ((decimal.digits * 10 ^ decimal.exponent.toNat : Nat) : ℚ) /
      (10 ^ (-decimal.exponent).toNat : Nat) := by
  rw [Nat.cast_mul, mul_div_assoc, pow_toNat_div_pow_toNat 10 (by decide)]
  rfl

/-- A number has at most as many digits as the exponent of a power of ten above it. -/
theorem length_natDigits_le_iff {number : Nat} (positive : 0 < number) (bound : Int) :
    ((natDigits number).length : Int) ≤ bound ↔ (number : ℚ) < (10 : ℚ) ^ bound := by
  have some : 0 < (natDigits number).length := Nat.length_toDigits_pos
  rcases lt_or_ge 0 bound with above | below
  · obtain ⟨count, rfl⟩ := Int.eq_ofNat_of_zero_le above.le
    rw [zpow_natCast, Int.ofNat_le]
    exact (Nat.length_toDigits_le_iff (by decide) (by exact_mod_cast above)).trans
      (by exact_mod_cast Iff.rfl)
  · have least : (1 : ℚ) ≤ number := by exact_mod_cast positive
    have most : (10 : ℚ) ^ bound ≤ 1 := zpow_le_one_of_nonpos₀ (by norm_num) below
    constructor
    · intro short
      omega
    · intro small
      exact absurd (small.trans_le most) (not_lt.mpr least)

/-- The place of the leading digit says between which powers of ten a decimal is. -/
theorem Decimal.places_le_iff {decimal : Decimal} (positive : 0 < decimal.digits) (bound : Int) :
    decimal.exponent + ((natDigits decimal.digits).length : Int) ≤ bound ↔
      decimal.magnitude < (10 : ℚ) ^ bound := by
  have power : (0 : ℚ) < (10 : ℚ) ^ decimal.exponent := zpow_pos (by norm_num) _
  have scaled : (10 : ℚ) ^ bound =
      (10 : ℚ) ^ (bound - decimal.exponent) * (10 : ℚ) ^ decimal.exponent := by
    rw [← zpow_add₀ (by norm_num : (10 : ℚ) ≠ 0), sub_add_cancel]
  rw [Decimal.magnitude, scaled, mul_lt_mul_iff_of_pos_right power,
    ← length_natDigits_le_iff positive]
  omega

theorem Decimal.magnitude_eq_zero_iff {decimal : Decimal} :
    decimal.magnitude = 0 ↔ decimal.digits = 0 := by
  have power : (10 : ℚ) ^ decimal.exponent ≠ 0 := zpow_ne_zero _ (by norm_num)
  rw [Decimal.magnitude, mul_eq_zero, or_iff_left power, Nat.cast_eq_zero]

namespace Binary64

/-! ## Quotients -/

theorem roundHalfEven_mul_right {numerator denominator factor : Nat} (positive : 0 < factor) :
    roundHalfEven (numerator * factor) (denominator * factor) =
      roundHalfEven numerator denominator := by
  have rest : ∀ part, 2 * (part * factor) < denominator * factor ↔ 2 * part < denominator := by
    intro part
    rw [← Nat.mul_assoc, Nat.mul_lt_mul_right positive]
  have half : ∀ part, 2 * (part * factor) = denominator * factor ↔ 2 * part = denominator := by
    intro part
    rw [← Nat.mul_assoc, Nat.mul_left_inj positive.ne']
  simp only [roundHalfEven, Nat.mul_div_mul_right _ _ positive, Nat.mul_mod_mul_right, rest, half]

/-- Equal quotients are rounded alike. -/
theorem roundHalfEven_congr {numerator denominator numerator' denominator' : Nat}
    (positive : 0 < denominator) (positive' : 0 < denominator')
    (same : numerator * denominator' = numerator' * denominator) :
    roundHalfEven numerator denominator = roundHalfEven numerator' denominator' := by
  rw [← roundHalfEven_mul_right positive', same, Nat.mul_comm denominator,
    roundHalfEven_mul_right positive]

/-- A whole number is rounded to itself. -/
theorem roundHalfEven_mul_self (number : Nat) {denominator : Nat} (positive : 0 < denominator) :
    roundHalfEven (number * denominator) denominator = number := by
  simp [roundHalfEven, Nat.mul_div_cancel _ positive, Nat.mul_mod_left, positive]

/-- How the leading exponent compares a quotient with a power of two. -/
theorem lt_two_pow_iff {numerator denominator : Nat} (positive : 0 < denominator)
    (exponent : Int) :
    numerator * Nat.pow 2 (-exponent).toNat < denominator * Nat.pow 2 exponent.toNat ↔
      (numerator : ℚ) / denominator < (2 : ℚ) ^ exponent := by
  have below : (0 : ℚ) < denominator := by exact_mod_cast positive
  have power : (0 : ℚ) < (2 ^ (-exponent).toNat : Nat) := by positivity
  have ratio := pow_toNat_div_pow_toNat 2 (by decide) exponent
  rw [Nat.cast_ofNat] at ratio
  rw [← ratio, div_lt_div_iff₀ below power, mul_comm _ (denominator : ℚ)]
  exact_mod_cast Iff.rfl

/-- The bit lengths of two numbers leave two candidates for the exponent of their quotient. -/
theorem two_pow_log2_bounds {numerator denominator : Nat} (above : 0 < numerator)
    (below : 0 < denominator) :
    (2 : ℚ) ^ ((Nat.log2 numerator : Int) - Nat.log2 denominator - 1) ≤
        (numerator : ℚ) / denominator ∧
      (numerator : ℚ) / denominator <
        (2 : ℚ) ^ ((Nat.log2 numerator : Int) - Nat.log2 denominator + 1) := by
  have nonzero : (2 : ℚ) ≠ 0 := by norm_num
  have bounds : ∀ {number : Nat}, 0 < number → (2 : ℚ) ^ Nat.log2 number ≤ number ∧
      (number : ℚ) < 2 ^ (Nat.log2 number + 1) := fun positive =>
    ⟨by exact_mod_cast Nat.log2_self_le positive.ne', by exact_mod_cast Nat.lt_log2_self⟩
  obtain ⟨least, most⟩ := bounds above
  obtain ⟨least', most'⟩ := bounds below
  constructor
  · rw [sub_sub, zpow_sub₀ nonzero, zpow_natCast]
    gcongr
    exact_mod_cast most'.le
  · rw [sub_add_eq_add_sub, zpow_sub₀ nonzero, zpow_natCast]
    exact div_lt_div₀ (by exact_mod_cast most) least' (zpow_nonneg (by norm_num) _)
      (by positivity)

/-- The leading exponent is the logarithm of the quotient, rounded down. -/
theorem leadingExponent_eq_log {numerator denominator : Nat} (above : 0 < numerator)
    (below : 0 < denominator) :
    leadingExponent numerator denominator = Int.log 2 ((numerator : ℚ) / denominator) := by
  have positive : (0 : ℚ) < (numerator : ℚ) / denominator := by positivity
  have exponent_eq : ∀ exponent : Int, (2 : ℚ) ^ exponent ≤ (numerator : ℚ) / denominator →
      (numerator : ℚ) / denominator < (2 : ℚ) ^ (exponent + 1) →
      exponent = Int.log 2 ((numerator : ℚ) / denominator) := by
    intro exponent least most
    have lower := (Int.zpow_le_iff_le_log Nat.one_lt_two positive).mp least
    have upper := (Int.lt_zpow_iff_log_lt Nat.one_lt_two positive).mp most
    omega
  obtain ⟨least, most⟩ := two_pow_log2_bounds above below
  simp only [leadingExponent]
  split
  · rename_i small
    refine exponent_eq _ least ?_
    rw [sub_add_cancel]
    exact (lt_two_pow_iff below _).mp small
  · rename_i large
    exact exponent_eq _ (not_lt.mp fun small => large ((lt_two_pow_iff below _).mpr small)) most

/-- Equal quotients have one nearest rank. -/
theorem nearestRank_congr {numerator denominator numerator' denominator' : Nat}
    (above : 0 < numerator) (below : 0 < denominator) (above' : 0 < numerator')
    (below' : 0 < denominator')
    (same : (numerator : ℚ) / denominator = (numerator' : ℚ) / denominator') :
    nearestRank numerator denominator = nearestRank numerator' denominator' := by
  have leading : leadingExponent numerator denominator =
      leadingExponent numerator' denominator' := by
    rw [leadingExponent_eq_log above below, leadingExponent_eq_log above' below', same]
  have crossed : numerator * denominator' = numerator' * denominator := by
    rw [div_eq_div_iff (by positivity) (by positivity)] at same
    exact_mod_cast same
  rw [nearestRank, nearestRank, leading]
  congr 1
  refine roundHalfEven_congr (Nat.mul_pos below (Nat.two_pow_pos _))
    (Nat.mul_pos below' (Nat.two_pow_pos _)) ?_
  rw [Nat.mul_mul_mul_comm, crossed, Nat.mul_mul_mul_comm]

/-! ## Decimals -/

/-- A decimal is rounded by its magnitude: what is out of range on either side is told apart by
comparing it with powers of ten. -/
theorem ofDecimal_eq {decimal : Decimal} (positive : 0 < decimal.digits) :
    ofDecimal decimal =
      if (10 : ℚ) ^ (310 : Int) ≤ decimal.magnitude then infinite decimal.negative
      else if decimal.magnitude < (10 : ℚ) ^ (-331 : Int) then ofRank decimal.negative 0
      else
        ofRank decimal.negative (nearestRank (decimal.digits * 10 ^ decimal.exponent.toNat)
          (10 ^ (-decimal.exponent).toNat)) := by
  have above : decimal.digits * 10 ^ decimal.exponent.toNat ≠ 0 :=
    (Nat.mul_pos positive (Nat.pow_pos (by decide))).ne'
  have large : 310 < decimal.exponent + ((natDigits decimal.digits).length : Int) ↔
      (10 : ℚ) ^ (310 : Int) ≤ decimal.magnitude := by
    rw [← not_lt, ← Decimal.places_le_iff positive, not_le]
  have small : decimal.exponent + ((natDigits decimal.digits).length : Int) < -330 ↔
      decimal.magnitude < (10 : ℚ) ^ (-331 : Int) := by
    rw [← Decimal.places_le_iff positive]
    omega
  simp only [ofDecimal, ofQuotient, Nat.pow_eq, if_neg positive.ne', if_neg above, large, small]

/-- Decimals of one sign and magnitude are rounded to one number. -/
theorem ofDecimal_congr {first second : Decimal} (sign : first.negative = second.negative)
    (same : first.magnitude = second.magnitude) : ofDecimal first = ofDecimal second := by
  have alike : first.digits = 0 ↔ second.digits = 0 := by
    rw [← Decimal.magnitude_eq_zero_iff, same, Decimal.magnitude_eq_zero_iff]
  rcases Nat.eq_zero_or_pos first.digits with none | positive
  · rw [ofDecimal, ofDecimal, if_pos none, if_pos (alike.mp none), sign]
  · have positive' : 0 < second.digits :=
      Nat.pos_of_ne_zero fun none => positive.ne' (alike.mpr none)
    have tens : ∀ exponent, 0 < 10 ^ exponent := fun _ => Nat.pow_pos (by decide)
    have quotients := same
    rw [Decimal.magnitude_eq_div, Decimal.magnitude_eq_div] at quotients
    rw [ofDecimal_eq positive, ofDecimal_eq positive', same, sign,
      nearestRank_congr (Nat.mul_pos positive (tens _)) (tens _) (Nat.mul_pos positive' (tens _))
        (tens _) quotients]

/-! ## Numbers that are representable -/

theorem significand_lt (rank : Nat) : significand rank < 2 ^ 53 := by
  unfold significand
  split <;> simp only [Nat.pow_eq] at * <;> omega

/-- The unit is the least one unless the significand has all its bits. -/
theorem unitExponent_cases (rank : Nat) :
    unitExponent rank = -1074 ∨ (-1074 ≤ unitExponent rank ∧ 2 ^ 52 ≤ significand rank) := by
  unfold significand unitExponent
  split
  · exact Or.inl rfl
  · refine Or.inr ⟨?_, Nat.le_add_right _ _⟩
    simp only [Nat.pow_eq] at *
    omega

/-- A rank counts the units below its own and its significand. -/
theorem unitExponent_mul_add_significand (rank : Nat) :
    (unitExponent rank + 1074).toNat * 2 ^ 52 + significand rank = rank := by
  unfold significand unitExponent
  split
  · simp
  · simp only [Nat.pow_eq] at *
    omega

theorem significand_pos {rank : Nat} (positive : 0 < rank) : 0 < significand rank := by
  unfold significand
  split <;> simp only [Nat.pow_eq] at * <;> omega

/-- The magnitude of a rank, as a quotient. -/
theorem magnitude_eq (rank : Nat) :
    ((Shortest.magnitude rank).1 : ℚ) / (Shortest.magnitude rank).2 =
      significand rank * (2 : ℚ) ^ unitExponent rank := by
  have ratio := pow_toNat_div_pow_toNat 2 (by decide) (unitExponent rank)
  rw [Nat.cast_ofNat] at ratio
  rw [← ratio, ← mul_div_assoc, Shortest.magnitude]
  push_cast [Nat.pow_eq]
  rfl

/-- The unit to which the magnitude of a rank is rounded is the unit of the rank. -/
theorem roundingUnit_magnitude {rank : Nat} (positive : 0 < rank) :
    max (leadingExponent (Shortest.magnitude rank).1 (Shortest.magnitude rank).2 - 52) (-1074) =
      unitExponent rank := by
  have above : 0 < (Shortest.magnitude rank).1 :=
    Nat.mul_pos (significand_pos positive) (Nat.two_pow_pos _)
  have below : 0 < (Shortest.magnitude rank).2 := Nat.two_pow_pos _
  have nonzero : (2 : ℚ) ≠ 0 := by norm_num
  have power : (0 : ℚ) < (2 : ℚ) ^ unitExponent rank := zpow_pos (by norm_num) _
  have magnitude : (0 : ℚ) < significand rank * (2 : ℚ) ^ unitExponent rank :=
    mul_pos (by exact_mod_cast significand_pos positive) power
  have most : Int.log 2 (significand rank * (2 : ℚ) ^ unitExponent rank) <
      53 + unitExponent rank := by
    refine (Int.lt_zpow_iff_log_lt Nat.one_lt_two magnitude).mp ?_
    rw [Nat.cast_ofNat, zpow_add₀ nonzero, mul_lt_mul_iff_of_pos_right power]
    exact_mod_cast significand_lt rank
  rw [leadingExponent_eq_log above below, magnitude_eq]
  rcases unitExponent_cases rank with least | ⟨least, full⟩
  · omega
  · have lower : 52 + unitExponent rank ≤
        Int.log 2 (significand rank * (2 : ℚ) ^ unitExponent rank) := by
      refine (Int.zpow_le_iff_le_log Nat.one_lt_two magnitude).mp ?_
      rw [Nat.cast_ofNat, zpow_add₀ nonzero, mul_le_mul_iff_of_pos_right power]
      exact_mod_cast full
    omega

/-- A positive rank is the one nearest to its own magnitude. -/
theorem nearestRank_magnitude {rank : Nat} (positive : 0 < rank) :
    nearestRank (Shortest.magnitude rank).1 (Shortest.magnitude rank).2 = rank := by
  have whole : roundHalfEven ((Shortest.magnitude rank).1 * Nat.pow 2 (-unitExponent rank).toNat)
      ((Shortest.magnitude rank).2 * Nat.pow 2 (unitExponent rank).toNat) = significand rank := by
    rw [Shortest.magnitude, Nat.mul_assoc, Nat.mul_comm (Nat.pow 2 (unitExponent rank).toNat)]
    exact roundHalfEven_mul_self _ (Nat.mul_pos (Nat.two_pow_pos _) (Nat.two_pow_pos _))
  rw [nearestRank, roundingUnit_magnitude positive, whole]
  exact unitExponent_mul_add_significand rank

theorem le_unitExponent (rank : Nat) : -1074 ≤ unitExponent rank := by
  rcases unitExponent_cases rank with least | ⟨least, -⟩
  · exact least.ge
  · exact least

theorem unitExponent_le {rank : Nat} (bound : rank < rankLimit) : unitExponent rank ≤ 971 := by
  have whole := unitExponent_mul_add_significand rank
  have limit : rankLimit = 2047 * 2 ^ 52 := rfl
  rcases unitExponent_cases rank with least | ⟨-, full⟩ <;> omega

/-- The magnitude of a number in range is not below the cut-off for small decimals. -/
theorem ten_pow_le_magnitude {rank : Nat} (positive : 0 < rank) :
    (10 : ℚ) ^ (-331 : Int) ≤ significand rank * (2 : ℚ) ^ unitExponent rank := by
  have small : (2 : ℚ) ^ 1074 ≤ 10 ^ 331 := by
    exact_mod_cast (by decide +kernel : 2 ^ 1074 ≤ 10 ^ 331)
  calc (10 : ℚ) ^ (-331 : Int) ≤ (2 : ℚ) ^ (-1074 : Int) := by
        rw [zpow_neg, zpow_neg, zpow_ofNat, zpow_ofNat]
        exact inv_anti₀ (by positivity) small
    _ ≤ (2 : ℚ) ^ unitExponent rank := zpow_le_zpow_right₀ (by norm_num) (le_unitExponent rank)
    _ ≤ significand rank * (2 : ℚ) ^ unitExponent rank := by
        refine le_mul_of_one_le_left (zpow_nonneg (by norm_num) _) ?_
        exact_mod_cast significand_pos positive

/-- The magnitude of a number in range is below the cut-off for large decimals. -/
theorem magnitude_lt_ten_pow {rank : Nat} (bound : rank < rankLimit) :
    significand rank * (2 : ℚ) ^ unitExponent rank < (10 : ℚ) ^ (310 : Int) := by
  have large : (2 : ℚ) ^ 53 * 2 ^ 971 < 10 ^ 310 := by
    exact_mod_cast (by decide +kernel : 2 ^ 53 * 2 ^ 971 < 10 ^ 310)
  calc significand rank * (2 : ℚ) ^ unitExponent rank
      ≤ 2 ^ 53 * (2 : ℚ) ^ unitExponent rank := by
        refine mul_le_mul_of_nonneg_right ?_ (zpow_nonneg (by norm_num) _)
        exact_mod_cast (significand_lt rank).le
    _ ≤ 2 ^ 53 * (2 : ℚ) ^ (971 : Int) :=
        mul_le_mul_of_nonneg_left (zpow_le_zpow_right₀ (by norm_num) (unitExponent_le bound))
          (by norm_num)
    _ < (10 : ℚ) ^ (310 : Int) := large

/-- A decimal whose magnitude is that of a number in range is rounded to that number. -/
theorem ofDecimal_eq_ofRank {decimal : Decimal} {rank : Nat} (positive : 0 < rank)
    (bound : rank < rankLimit)
    (same : decimal.magnitude = significand rank * (2 : ℚ) ^ unitExponent rank) :
    ofDecimal decimal = ofRank decimal.negative rank := by
  have least := ten_pow_le_magnitude positive
  have digits : 0 < decimal.digits := by
    refine Nat.pos_of_ne_zero fun none => ?_
    rw [Decimal.magnitude_eq_zero_iff.mpr none] at same
    exact absurd (same ▸ least) (not_le.mpr (zpow_pos (by norm_num) _))
  rw [ofDecimal_eq digits, same, if_neg (not_le.mpr (magnitude_lt_ten_pow bound)),
    if_neg (not_lt.mpr least)]
  congr 1
  refine (nearestRank_congr (Nat.mul_pos digits (Nat.pow_pos (by decide)))
    (Nat.pow_pos (by decide)) (Nat.mul_pos (significand_pos positive) (Nat.two_pow_pos _))
    (Nat.two_pow_pos _) ?_).trans (nearestRank_magnitude positive)
  rw [← Decimal.magnitude_eq_div, same]
  exact (magnitude_eq rank).symm

end Binary64

end Parley.Number
