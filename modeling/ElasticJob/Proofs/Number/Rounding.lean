import ElasticJob.Number.Single
import Mathlib.Algebra.Order.Field.Power
import Mathlib.Data.Nat.Log
import Mathlib.Data.Rat.Cast.Order
import Mathlib.Tactic.Linarith
import Mathlib.Tactic.Positivity
import Mathlib.Tactic.Ring

/-!
Rounded quotients as rational numbers. Rounding keeps the order of counts, and a quotient that is
at least one stays at least one, so a whole is never taken for less than any part of it.
-/

namespace ElasticJob.Number

theorem twoTo_cast (exponent : Nat) : (twoTo exponent : ℚ) = 2 ^ exponent := by
  change ((2 ^ exponent : Nat) : ℚ) = 2 ^ exponent
  push_cast
  rfl

theorem twoTo_pos (exponent : Nat) : 0 < twoTo exponent :=
  Nat.pow_pos (by decide)

theorem zpow_eq_twoTo (exponent : Int) :
    (2 : ℚ) ^ exponent = twoTo exponent.toNat / twoTo (-exponent).toNat := by
  rw [twoTo_cast, twoTo_cast]
  rcases Int.le_total 0 exponent with positive | negative
  · obtain ⟨natural, rfl⟩ := Int.eq_ofNat_of_zero_le positive
    simp
  · obtain ⟨natural, same⟩ := Int.eq_ofNat_of_zero_le (Int.neg_nonneg_of_nonpos negative)
    obtain rfl : exponent = -natural := by omega
    simp

theorem twoTo_balance (above below : Nat) (exponent : Int) (same : above + exponent = below) :
    twoTo above * twoTo exponent.toNat = twoTo below * twoTo (-exponent).toNat := by
  have sums : above + exponent.toNat = below + (-exponent).toNat := by omega
  calc twoTo above * twoTo exponent.toNat = 2 ^ (above + exponent.toNat) := (pow_add 2 _ _).symm
    _ = 2 ^ (below + (-exponent).toNat) := by rw [sums]
    _ = twoTo below * twoTo (-exponent).toNat := pow_add 2 _ _

namespace Scaled

def value (a : Scaled) : ℚ :=
  a.mantissa * 2 ^ a.exponent

theorem lt_iff (a b : Scaled) : a.lt b = true ↔ a.value < b.value := by
  have aligned : ∀ (c : Scaled) (low : Int), low ≤ c.exponent →
      c.value = (c.mantissa * twoTo (c.exponent - low).toNat : Nat) * 2 ^ low := by
    intro c low below
    have exponent : ((c.exponent - low).toNat : Int) = c.exponent - low :=
      Int.toNat_of_nonneg (by omega)
    rw [value, Nat.cast_mul, twoTo_cast, mul_assoc, ← zpow_natCast, exponent,
      ← zpow_add₀ (by norm_num), sub_add_cancel]
  rw [aligned a (min a.exponent b.exponent) (min_le_left _ _),
    aligned b (min a.exponent b.exponent) (min_le_right _ _),
    mul_lt_mul_iff_left₀ (by positivity), Nat.cast_lt]
  exact decide_eq_true_iff

theorem value_eq_fraction (a : Scaled) :
    a.value = (a.fraction.1 : ℚ) / a.fraction.2 := by
  simp only [value, fraction, zpow_eq_twoTo, Nat.cast_mul, mul_div_assoc]

end Scaled

section Division

variable (numerator other denominator : Nat)

theorem floor_le_divideToEven : numerator / denominator ≤ divideToEven numerator denominator := by
  unfold divideToEven
  dsimp only
  split_ifs <;> omega

theorem divideToEven_le_succ :
    divideToEven numerator denominator ≤ numerator / denominator + 1 := by
  unfold divideToEven
  dsimp only
  split_ifs <;> omega

theorem le_divideToEven (count : Nat) (positive : 0 < denominator)
    (covered : count * denominator ≤ numerator) :
    count ≤ divideToEven numerator denominator :=
  Nat.le_trans ((Nat.le_div_iff_mul_le positive).mpr covered)
    (floor_le_divideToEven numerator denominator)

theorem divideToEven_mono (less : numerator ≤ other) :
    divideToEven numerator denominator ≤ divideToEven other denominator := by
  rcases Nat.lt_or_ge (numerator / denominator) (other / denominator) with below | above
  · have up := divideToEven_le_succ numerator denominator
    have down := floor_le_divideToEven other denominator
    omega
  · have same : numerator / denominator = other / denominator :=
      Nat.le_antisymm (Nat.div_le_div_right less) above
    have rest : numerator % denominator ≤ other % denominator := by
      have left := Nat.div_add_mod numerator denominator
      have right := Nat.div_add_mod other denominator
      rw [same] at left
      omega
    unfold divideToEven
    dsimp only
    rw [same]
    split_ifs <;> omega

theorem divideToEven_le (count : Nat) (positive : 0 < denominator)
    (bounded : numerator ≤ count * denominator) :
    divideToEven numerator denominator ≤ count := by
  have exact : divideToEven (count * denominator) denominator = count := by
    simp [divideToEven, Nat.mul_div_cancel count positive, positive]
  exact exact ▸ divideToEven_mono numerator (count * denominator) denominator bounded

end Division

/-- Carrying into the next power of two does not change the value. -/
theorem roundQuotient_value (precision : Nat) (floor : Int) (numerator denominator : Nat)
    (some : 0 < precision) :
    (roundQuotient precision floor numerator denominator).value =
      unitsToEven numerator denominator
          (quotientExponent precision floor numerator denominator) *
        2 ^ quotientExponent precision floor numerator denominator := by
  unfold roundQuotient
  dsimp only
  split_ifs with full
  · obtain ⟨bits, rfl⟩ := Nat.exists_eq_succ_of_ne_zero (Nat.pos_iff_ne_zero.mp some)
    rw [full, Scaled.value, zpow_add_one₀ (by norm_num), twoTo_cast, twoTo_cast, Nat.succ_sub_one,
      pow_succ]
    ring
  · rfl

/-- A quotient of at least one is at least one unit of any exponent that rounding may choose. -/
theorem one_le_roundQuotient (precision : Nat) (floor : Int) (numerator denominator : Nat)
    (several : 1 < precision) (below : floor ≤ 0) (positive : 0 < denominator)
    (covered : denominator ≤ numerator) :
    1 ≤ (roundQuotient precision floor numerator denominator).value := by
  rw [roundQuotient_value _ _ _ _ (Nat.zero_lt_of_lt several)]
  generalize chosen : quotientExponent precision floor numerator denominator = exponent
  have bounded : 0 < exponent →
      exponent + Nat.log2 denominator + 1 ≤ Nat.log2 numerator := by
    rw [← chosen]
    unfold quotientExponent
    dsimp only
    split_ifs <;> omega
  have units : twoTo (-exponent).toNat ≤ unitsToEven numerator denominator exponent := by
    apply le_divideToEven _ _ _ (Nat.mul_pos positive (twoTo_pos _))
    rcases lt_or_ge 0 exponent with coarse | fine
    -- a unit above one is chosen only where the quotient has the bits for it
    · have small : denominator < 2 ^ (Nat.log2 denominator + 1) := Nat.lt_log2_self
      have large : 2 ^ Nat.log2 numerator ≤ numerator := Nat.log2_self_le (by omega)
      rw [show (-exponent).toNat = 0 by omega, show twoTo 0 = 1 from rfl, one_mul, mul_one]
      calc denominator * twoTo exponent.toNat
          ≤ 2 ^ (Nat.log2 denominator + 1) * 2 ^ exponent.toNat :=
            Nat.mul_le_mul_right _ small.le
        _ = 2 ^ (Nat.log2 denominator + 1 + exponent.toNat) := (pow_add 2 _ _).symm
        _ ≤ 2 ^ Nat.log2 numerator :=
            Nat.pow_le_pow_right (by decide) (by have := bounded coarse; omega)
        _ ≤ numerator := large
    · rw [Int.toNat_of_nonpos fine, Nat.mul_comm numerator]
      exact Nat.mul_le_mul_left _ (by simpa [twoTo] using covered)
  have whole : (twoTo (-exponent).toNat : ℚ) ≤ unitsToEven numerator denominator exponent := by
    exact_mod_cast units
  calc (1 : ℚ) ≤ twoTo exponent.toNat := by exact_mod_cast twoTo_pos _
    _ = twoTo (-exponent).toNat * 2 ^ exponent := by
        have some : (twoTo (-exponent).toNat : ℚ) ≠ 0 := by exact_mod_cast (twoTo_pos _).ne'
        rw [zpow_eq_twoTo, mul_div_cancel₀ _ some]
    _ ≤ _ := mul_le_mul_of_nonneg_right whole (by positivity)

section Counts

variable (count other : Nat)

theorem quotientExponent_count (some : 0 < count) :
    quotientExponent 53 (-1074) count 1 = (Nat.log2 count : Int) - 52 := by
  have large : twoTo (Nat.log2 count) ≤ count := Nat.log2_self_le (by omega)
  have units : twoTo 53 ≤ count * twoTo (-((Nat.log2 count : Int) - 53)).toNat /
      twoTo ((Nat.log2 count : Int) - 53).toNat := by
    rw [Nat.le_div_iff_mul_le (twoTo_pos _), twoTo_balance 53 (Nat.log2 count) _ (by omega)]
    exact Nat.mul_le_mul_right _ large
  unfold quotientExponent
  simp only [show Nat.log2 1 = 0 from rfl, Nat.cast_zero, sub_zero, one_mul]
  rw [if_neg (by simpa using units)]
  omega

theorem toDouble_value (some : 0 < count) :
    (toDouble count).value =
      unitsToEven count 1 ((Nat.log2 count : Int) - 52) * 2 ^ ((Nat.log2 count : Int) - 52) := by
  rw [toDouble, roundQuotient_value _ _ _ _ (by decide), quotientExponent_count count some]

theorem toDouble_bounds (some : 0 < count) :
    2 ^ Nat.log2 count ≤ (toDouble count).value ∧
      (toDouble count).value ≤ 2 ^ (Nat.log2 count + 1) := by
  have large : twoTo (Nat.log2 count) ≤ count := Nat.log2_self_le (by omega)
  have small : count ≤ twoTo (Nat.log2 count + 1) := Nat.le_of_lt Nat.lt_log2_self
  have lower : twoTo 52 ≤ unitsToEven count 1 ((Nat.log2 count : Int) - 52) := by
    apply le_divideToEven _ _ _ (Nat.mul_pos Nat.one_pos (twoTo_pos _))
    rw [one_mul, twoTo_balance 52 (Nat.log2 count) _ (by omega)]
    exact Nat.mul_le_mul_right _ large
  have upper : unitsToEven count 1 ((Nat.log2 count : Int) - 52) ≤ twoTo 53 := by
    apply divideToEven_le _ _ _ (Nat.mul_pos Nat.one_pos (twoTo_pos _))
    rw [one_mul, twoTo_balance 53 (Nat.log2 count + 1) _ (by omega)]
    exact Nat.mul_le_mul_right _ small
  have power : ∀ bits : Nat, (2 : ℚ) ^ (Nat.log2 count + bits) =
      twoTo (52 + bits) * 2 ^ ((Nat.log2 count : Int) - 52) := by
    intro bits
    rw [twoTo_cast, ← zpow_natCast, ← zpow_natCast, ← zpow_add₀ (by norm_num)]
    congr 1
    omega
  rw [toDouble_value count some]
  constructor
  · rw [show (2 : ℚ) ^ Nat.log2 count = _ from power 0]
    exact mul_le_mul_of_nonneg_right (by exact_mod_cast lower) (by positivity)
  · rw [power 1]
    exact mul_le_mul_of_nonneg_right (by exact_mod_cast upper) (by positivity)

theorem toDouble_mono (some : 0 < count) (less : count ≤ other) :
    (toDouble count).value ≤ (toDouble other).value := by
  have logs : Nat.log2 count ≤ Nat.log2 other := by
    rw [Nat.log2_eq_log_two, Nat.log2_eq_log_two]
    exact Nat.log_mono_right less
  rcases Nat.lt_or_eq_of_le logs with below | same
  · calc (toDouble count).value ≤ 2 ^ (Nat.log2 count + 1) := (toDouble_bounds count some).2
      _ ≤ 2 ^ Nat.log2 other := pow_le_pow_right₀ (by norm_num) below
      _ ≤ (toDouble other).value := (toDouble_bounds other (by omega)).1
  -- between the same powers of two both counts are rounded in the same unit
  · rw [toDouble_value count some, toDouble_value other (by omega), same]
    apply mul_le_mul_of_nonneg_right _ (by positivity)
    exact_mod_cast divideToEven_mono _ _ _ (Nat.mul_le_mul_right _ less)

end Counts

theorem Single.magnitude_le_one {fraction : Single} (unit : fraction.isUnit = true) :
    fraction.magnitude.value ≤ 1 := by
  unfold Single.isUnit at unit
  unfold Single.magnitude
  split at unit
  · rename_i negative magnitude known
    by_cases below : negative = true
    · simp_all [Scaled.value]
    · have above := (Scaled.lt_iff ⟨1, 0⟩ magnitude).not.mp (by simpa [below] using unit)
      simpa [Scaled.value] using above
  · cases unit

theorem doubleQuotient_reaches (completed total : Nat) (fraction : Single)
    (some : 0 < total) (all : total ≤ completed) (unit : fraction.isUnit = true) :
    (doubleQuotient completed total).lt fraction.magnitude = false := by
  have bounded := Single.magnitude_le_one unit
  have order := toDouble_mono total completed some all
  have positive : 0 < (toDouble total).value :=
    lt_of_lt_of_le (by positivity) (toDouble_bounds total some).1
  have reaches : 1 ≤ (doubleQuotient completed total).value := by
    rw [Scaled.value_eq_fraction, Scaled.value_eq_fraction] at order
    rw [Scaled.value_eq_fraction] at positive
    have above : 0 < ((toDouble completed).fraction.2 : ℚ) := by exact_mod_cast twoTo_pos _
    have below : 0 < ((toDouble total).fraction.2 : ℚ) := by exact_mod_cast twoTo_pos _
    rw [div_le_div_iff₀ below above] at order
    rw [div_pos_iff_of_pos_right below] at positive
    apply one_le_roundQuotient _ _ _ _ (by decide) (by decide)
    · exact_mod_cast mul_pos above positive
    · rw [mul_comm (toDouble completed).fraction.2]
      exact_mod_cast order
  rw [Bool.eq_false_iff, ne_eq, Scaled.lt_iff]
  linarith

end ElasticJob.Number
