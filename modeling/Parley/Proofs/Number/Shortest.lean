import Parley.Proofs.Number.Rounding

/-!
# What is written for a number reads back

The search for the shortest decimal accepts nothing that is not read as the number, and where it
ends without a hit the exact expansion is written.  So the digits and the exponent that are written
for a finite number are rounded to it again, whichever tie rule is in force.
-/

namespace Parley.Number

/-- A number with the sign that is given. -/
def Binary64.withSign (negative : Bool) : Binary64 → Binary64
  | finite _ rank => finite negative rank
  | infinite _ => infinite negative
  | notANumber => notANumber

namespace Binary64

@[simp]
theorem withSign_ofRank (negative other : Bool) (rank : Nat) :
    (ofRank other rank).withSign negative = ofRank negative rank := by
  unfold ofRank
  split <;> rfl

/-- The sign of a decimal is kept and has no part in the rounding. -/
theorem ofDecimal_withSign (negative other : Bool) (digits : Nat) (exponent : Int) :
    (ofDecimal ⟨other, digits, exponent⟩).withSign negative =
      ofDecimal ⟨negative, digits, exponent⟩ := by
  simp only [ofDecimal, ofQuotient, apply_ite (withSign negative), withSign_ofRank]
  rfl

end Binary64

namespace Shortest

open Binary64

variable {tie : Tie} {rank : Nat}

theorem readsBack_iff {digits : Nat} {exponent : Int} :
    readsBack rank digits exponent = true ↔
      ofDecimal ⟨false, digits, exponent⟩ = ofRank false rank :=
  beq_iff_eq

theorem nearer_eq_or_eq (tie : Tie) (numerator denominator lower : Nat) :
    nearer tie numerator denominator lower = lower ∨
      nearer tie numerator denominator lower = lower + 1 := by
  unfold nearer
  split
  · exact Or.inl rfl
  · exact Or.inr rfl
  · cases tie with
    | away => exact Or.inr rfl
    | even =>
        dsimp only
        split
        · exact Or.inl rfl
        · exact Or.inr rfl

/-- A multiple that is taken on a grid was tested. -/
theorem readsBack_of_onGrid? {exponent : Int} {digits : Nat}
    (found : onGrid? tie rank exponent = some digits) : readsBack rank digits exponent = true := by
  simp only [onGrid?] at found
  split at found
  · rename_i lower upper
    cases found
    rcases nearer_eq_or_eq tie _ _ _ with same | same
    · rw [same]
      exact lower
    · rw [same]
      exact upper
  · rename_i lower _
    cases found
    exact lower
  · rename_i _ upper
    cases found
    exact upper
  · cases found

/-- A hit of the search was tested. -/
theorem readsBack_of_search {steps : Nat} {exponent : Int} {digits : Nat × Int}
    (found : search tie rank steps exponent = some digits) :
    readsBack rank digits.1 digits.2 = true := by
  induction steps generalizing exponent with
  | zero => cases found
  | succ steps ih =>
      rw [search] at found
      split at found
      · rename_i multiple hit
        cases found
        exact readsBack_of_onGrid? hit
      · exact ih found

/-- The expansion of a rank is its exact magnitude. -/
theorem magnitude_expansion (negative : Bool) (rank : Nat) :
    Decimal.magnitude ⟨negative, (expansion rank).1, (expansion rank).2⟩ =
      significand rank * (2 : ℚ) ^ unitExponent rank := by
  have ratio := pow_toNat_div_pow_toNat 2 (by decide) (unitExponent rank)
  have tens : (10 : ℚ) ^ (-unitExponent rank).toNat =
      5 ^ (-unitExponent rank).toNat * 2 ^ (-unitExponent rank).toNat := by
    rw [← mul_pow]
    norm_num
  rw [Nat.cast_ofNat] at ratio
  rw [← ratio, Decimal.magnitude, expansion]
  push_cast [Nat.pow_eq]
  rw [zpow_neg, zpow_natCast, tens]
  field_simp

/-- What is written for a number in range is rounded to it. -/
theorem ofDecimal_digits (tie : Tie) (negative : Bool) (bound : rank < rankLimit) :
    ofDecimal ⟨negative, (digits tie rank).1, (digits tie rank).2⟩ = ofRank negative rank := by
  rcases Nat.eq_zero_or_pos rank with rfl | positive
  · rfl
  · rw [digits, if_neg positive.ne']
    rcases found : search tie rank 20 (coarsest rank) with _ | hit
    · exact ofDecimal_eq_ofRank positive bound (magnitude_expansion negative rank)
    · have read := readsBack_iff.mp (readsBack_of_search found)
      rw [Option.getD_some, ← ofDecimal_withSign negative false, read, withSign_ofRank]

end Shortest

end Parley.Number
