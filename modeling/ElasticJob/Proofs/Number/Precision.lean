import ElasticJob.Proofs.Number.Rounding
import Mathlib.Algebra.Order.Group.Abs
import Mathlib.Tactic.FieldSimp

/-!
How far rounding moves a number. A quotient moves by half a unit at most, so in proportion to itself
or, where it is too small to have all its bits, by half of the smallest unit; a count of up to 53
bits does not move at all. A part of a small number of counts is therefore compared as if nothing
was rounded, since between the part and the next smaller count there is more than rounding can take
away, and a part of any number of counts is missed by a few units of the last bit.
-/

namespace ElasticJob.Number

section Nearest

variable (numerator : Nat) {denominator : Nat} (positive : 0 < denominator)

include positive

theorem divideToEven_error :
    |(divideToEven numerator denominator : ℚ) - numerator / denominator| ≤ 1 / 2 := by
  have split := Nat.div_add_mod numerator denominator
  have rest := Nat.mod_lt numerator positive
  have nearest : 2 * numerator ≤ 2 * (denominator * divideToEven numerator denominator) +
        denominator ∧
      2 * (denominator * divideToEven numerator denominator) ≤ 2 * numerator + denominator := by
    have next := Nat.mul_add_one denominator (numerator / denominator)
    unfold divideToEven
    dsimp only
    split_ifs <;> omega
  have low : (2 * numerator : ℚ) ≤ 2 * (denominator * divideToEven numerator denominator) +
      denominator := by exact_mod_cast nearest.1
  have high : (2 * (denominator * divideToEven numerator denominator) : ℚ) ≤ 2 * numerator +
      denominator := by exact_mod_cast nearest.2
  have some : (0 : ℚ) < denominator := by exact_mod_cast positive
  rw [abs_sub_le_iff, sub_le_comm, le_div_iff₀ some, sub_le_iff_le_add, div_le_iff₀ some]
  constructor <;> linarith

theorem unitsToEven_error (exponent : Int) :
    |(unitsToEven numerator denominator exponent : ℚ) * 2 ^ exponent - numerator / denominator| ≤
      2 ^ exponent / 2 := by
  have near := divideToEven_error (numerator * twoTo (-exponent).toNat)
    (Nat.mul_pos positive (twoTo_pos exponent.toNat))
  have unit : (0 : ℚ) < 2 ^ exponent := by positivity
  have scaled : ((numerator * twoTo (-exponent).toNat : Nat) : ℚ) /
      (denominator * twoTo exponent.toNat : Nat) = numerator / denominator / 2 ^ exponent := by
    rw [zpow_eq_twoTo]
    push_cast
    field_simp
  rw [scaled] at near
  calc |(unitsToEven numerator denominator exponent : ℚ) * 2 ^ exponent - numerator / denominator|
      = |(unitsToEven numerator denominator exponent : ℚ) -
          numerator / denominator / 2 ^ exponent| * 2 ^ exponent := by
        rw [← abs_of_pos unit, ← abs_mul, abs_of_pos unit, sub_mul, div_mul_cancel₀ _ unit.ne']
    _ ≤ 1 / 2 * 2 ^ exponent := mul_le_mul_of_nonneg_right near unit.le
    _ = 2 ^ exponent / 2 := by ring

theorem quotientExponent_le (precision : Nat) (floor : Int) (some : 0 < numerator) :
    quotientExponent precision floor numerator denominator = floor ∨
      (2 : ℚ) ^ (quotientExponent precision floor numerator denominator + precision - 1) ≤
        numerator / denominator := by
  have large : (2 : ℚ) ^ Nat.log2 numerator ≤ numerator := by
    exact_mod_cast Nat.log2_self_le (Nat.pos_iff_ne_zero.mp some)
  have small : (denominator : ℚ) ≤ 2 ^ (Nat.log2 denominator + 1) := by
    exact_mod_cast Nat.lt_log2_self.le
  have below : (0 : ℚ) < denominator := by exact_mod_cast positive
  unfold quotientExponent
  dsimp only
  generalize chosen : (Nat.log2 numerator : Int) - Nat.log2 denominator - precision = guess
  rcases max_choice floor (if numerator * twoTo (-guess).toNat /
      (denominator * twoTo guess.toNat) < twoTo precision then guess else guess + 1) with
    least | free
  · exact .inl least
  refine .inr ?_
  rw [free, le_div_iff₀ below]
  split_ifs with fits
  · calc (2 : ℚ) ^ (guess + precision - 1) * denominator
        ≤ 2 ^ (guess + precision - 1) * 2 ^ (Nat.log2 denominator + 1) :=
          mul_le_mul_of_nonneg_left small (by positivity)
      _ = 2 ^ Nat.log2 numerator := by
          rw [← zpow_natCast, ← zpow_natCast, ← zpow_add₀ (by norm_num)]
          congr 1
          push_cast
          omega
      _ ≤ numerator := large
  · have units : twoTo precision * (denominator * twoTo guess.toNat) ≤
        numerator * twoTo (-guess).toNat :=
      (Nat.le_div_iff_mul_le (Nat.mul_pos positive (twoTo_pos _))).mp (Nat.le_of_not_lt fits)
    have whole : (2 : ℚ) ^ precision * (denominator * twoTo guess.toNat) ≤
        numerator * twoTo (-guess).toNat := by
      rw [← twoTo_cast]
      exact_mod_cast units
    have down : (0 : ℚ) < twoTo (-guess).toNat := by exact_mod_cast twoTo_pos _
    rw [show guess + 1 + (precision : Int) - 1 = precision + guess by ring,
      zpow_add₀ (by norm_num), zpow_natCast, zpow_eq_twoTo guess, mul_div_assoc', div_mul_eq_mul_div,
      div_le_iff₀ down]
    linarith

/-- A quotient is moved in proportion to itself, or by half of the smallest unit. -/
theorem roundQuotient_error (precision : Nat) (floor : Int) (several : 0 < precision)
    (some : 0 < numerator) :
    |(roundQuotient precision floor numerator denominator).value - numerator / denominator| ≤
      max ((numerator : ℚ) / denominator / 2 ^ precision) (2 ^ floor / 2) := by
  rw [roundQuotient_value _ _ _ _ several]
  refine (unitsToEven_error numerator positive _).trans ?_
  rcases quotientExponent_le numerator positive precision floor some with least | free
  · rw [least]
    exact le_max_right ..
  · refine le_max_of_le_left ?_
    rw [le_div_iff₀ (by positivity)]
    refine le_trans (le_of_eq ?_) free
    rw [zpow_sub₀ (by norm_num), zpow_add₀ (by norm_num), zpow_natCast]
    ring

end Nearest

section Counts

variable {count : Nat}

theorem toDouble_error (some : 0 < count) :
    |(toDouble count).value - count| ≤ count / 2 ^ 53 := by
  have moved := roundQuotient_error count Nat.one_pos 53 (-1074) (by decide) some
  have least : (1 : ℚ) ≤ count := by exact_mod_cast some
  rw [Nat.cast_one, div_one, max_eq_left] at moved
  · exact moved
  · have tiny : (2 : ℚ) ^ (-1074 : Int) ≤ 2 ^ (-53 : Int) :=
      zpow_le_zpow_right₀ (by norm_num) (by norm_num)
    calc (2 : ℚ) ^ (-1074 : Int) / 2 ≤ 2 ^ (-1074 : Int) := half_le_self (by positivity)
      _ ≤ 1 / 2 ^ 53 := tiny.trans_eq (by norm_num)
      _ ≤ count / 2 ^ 53 := by gcongr

theorem toDouble_exact (some : 0 < count) (narrow : count < 2 ^ 53) :
    (toDouble count).value = count := by
  have bits : Nat.log2 count < 53 := (Nat.log2_lt some.ne').mpr narrow
  have exact (value : Nat) : divideToEven value 1 = value := by simp [divideToEven, Nat.mod_one]
  rw [toDouble_value count some, unitsToEven,
    show ((Nat.log2 count : Int) - 52).toNat = 0 by omega, show 1 * twoTo 0 = 1 from rfl, exact,
    zpow_eq_twoTo, show ((Nat.log2 count : Int) - 52).toNat = 0 by omega,
    show twoTo 0 = 1 from rfl]
  have some : (twoTo (-((Nat.log2 count : Int) - 52)).toNat : ℚ) ≠ 0 := by
    exact_mod_cast (twoTo_pos _).ne'
  push_cast
  field_simp

theorem doubleQuotient_error {total : Nat} (some : 0 < count) (more : 0 < total) :
    |(doubleQuotient count total).value - (toDouble count).value / (toDouble total).value| ≤
      max ((toDouble count).value / (toDouble total).value / 2 ^ 53) (2 ^ (-1074 : Int) / 2) := by
  have above : 0 < (toDouble count).value :=
    lt_of_lt_of_le (by positivity) (toDouble_bounds count some).1
  have below : 0 < (toDouble total).value :=
    lt_of_lt_of_le (by positivity) (toDouble_bounds total more).1
  rw [Scaled.value_eq_fraction] at above below
  have scale : (0 : ℚ) < (toDouble count).fraction.2 := by exact_mod_cast twoTo_pos _
  have other : (0 : ℚ) < (toDouble total).fraction.2 := by exact_mod_cast twoTo_pos _
  rw [div_pos_iff_of_pos_right scale] at above
  rw [div_pos_iff_of_pos_right other] at below
  have quotient : (toDouble count).value / (toDouble total).value =
      ((toDouble count).fraction.1 * (toDouble total).fraction.2 : Nat) /
        ((toDouble count).fraction.2 * (toDouble total).fraction.1 : Nat) := by
    rw [Scaled.value_eq_fraction, Scaled.value_eq_fraction, div_div_div_eq]
    push_cast
    rfl
  rw [quotient]
  exact roundQuotient_error _ (by exact_mod_cast mul_pos scale below) 53 (-1074) (by decide)
    (by exact_mod_cast mul_pos above other)

end Counts

section Parts

/-- The mantissa has 24 bits, all of them used unless the exponent is the least one. -/
theorem Single.meaning_bounds {single : Single} {negative : Bool} {magnitude : Scaled}
    (known : single.meaning = .finite negative magnitude) :
    magnitude.mantissa < 2 ^ 24 ∧ -149 ≤ magnitude.exponent ∧
      (magnitude.exponent = -149 ∨ 2 ^ 23 ≤ magnitude.mantissa) := by
  have rest : single.bits.toNat % fullMantissa < 2 ^ 23 := Nat.mod_lt _ (by decide)
  have wide : fullMantissa = 2 ^ 23 := rfl
  simp only [meaning] at known
  split_ifs at known with special whole least
  · cases known
    dsimp only
    omega
  · cases known
    dsimp only
    omega

variable {fraction : Single} (unit : fraction.isUnit = true)

include unit

theorem Single.magnitude_bounds :
    fraction.magnitude.mantissa < 2 ^ 24 ∧ -149 ≤ fraction.magnitude.exponent ∧
      fraction.magnitude.exponent ≤ 0 := by
  have finite : ∃ negative, fraction.meaning = .finite negative fraction.magnitude := by
    unfold Single.isUnit at unit
    unfold Single.magnitude
    split at unit
    next negative magnitude known => exact ⟨negative, known⟩
    next => cases unit
  obtain ⟨negative, known⟩ := finite
  obtain ⟨narrow, fine, least | wide⟩ := Single.meaning_bounds known
  · exact ⟨narrow, fine, by omega⟩
  · refine ⟨narrow, fine, Int.not_lt.mp fun coarse => ?_⟩
    -- all bits of the mantissa are used, so the number would be above one
    have one := Single.magnitude_le_one unit
    rw [Scaled.value] at one
    have several : (2 : ℚ) ^ 23 ≤ fraction.magnitude.mantissa := by exact_mod_cast wide
    have scale : (1 : ℚ) ≤ 2 ^ fraction.magnitude.exponent :=
      one_le_zpow₀ (by norm_num) (by omega)
    nlinarith

/-- A part of a number of counts that is small enough is compared exactly. -/
theorem part_le_of_reached {count total : Nat} (some : 0 < count) (inside : count ≤ total)
    (few : total ≤ 2 ^ 29)
    (reached : (doubleQuotient count total).lt fraction.magnitude = false) :
    fraction.magnitude.value * total ≤ count := by
  have reaches := not_lt.mp ((Scaled.lt_iff _ _).not.mp (Bool.eq_false_iff.mp reached))
  obtain ⟨narrow, -, upper⟩ := Single.magnitude_bounds unit
  obtain ⟨places, same⟩ := Int.eq_ofNat_of_zero_le (Int.neg_nonneg_of_nonpos upper)
  have part : fraction.magnitude.value = fraction.magnitude.mantissa / 2 ^ places := by
    rw [Scaled.value, show fraction.magnitude.exponent = -(places : Int) by omega, zpow_neg,
      zpow_natCast, div_eq_mul_inv]
  have scale : (0 : ℚ) < 2 ^ places := by positivity
  have more : (0 : ℚ) < total := by exact_mod_cast Nat.lt_of_lt_of_le some inside
  by_contra short
  rw [not_le, part, div_mul_eq_mul_div, lt_div_iff₀ scale] at short
  -- in units of the part the count is whole, so it is less by one unit at least
  have apart : (count * 2 ^ places + 1 : ℚ) ≤ fraction.magnitude.mantissa * total := by
    have whole : count * 2 ^ places < fraction.magnitude.mantissa * total := by
      exact_mod_cast short
    exact_mod_cast whole
  have bits : (fraction.magnitude.mantissa * total : ℚ) ≤ 2 ^ 53 := by
    have product : fraction.magnitude.mantissa * total ≤ 2 ^ 24 * 2 ^ 29 :=
      Nat.mul_le_mul narrow.le few
    exact_mod_cast product
  have near : (doubleQuotient count total).value ≤ (count / total : ℚ) * (1 + 1 / 2 ^ 53) := by
    have moved := doubleQuotient_error some (Nat.lt_of_lt_of_le some inside)
    rw [toDouble_exact some (by omega), toDouble_exact (by omega) (by omega), max_eq_left] at moved
    · have up := (abs_sub_le_iff.mp moved).1
      linarith
    · have tiny : (2 : ℚ) ^ (-1074 : Int) ≤ 2 ^ (-82 : Int) :=
        zpow_le_zpow_right₀ (by norm_num) (by norm_num)
      have least : (1 : ℚ) / 2 ^ 29 ≤ count / total := by
        rw [div_le_div_iff₀ (by norm_num) more]
        have one : 1 * total ≤ count * 2 ^ 29 := by omega
        exact_mod_cast one
      calc (2 : ℚ) ^ (-1074 : Int) / 2 ≤ 2 ^ (-1074 : Int) := half_le_self (by positivity)
        _ ≤ 1 / 2 ^ 29 / 2 ^ 53 := tiny.trans_eq (by norm_num)
        _ ≤ count / total / 2 ^ 53 := by gcongr
  have gap : (count / total : ℚ) * (1 + 1 / 2 ^ 53) < fraction.magnitude.value := by
    rw [part, div_mul_eq_mul_div, div_lt_div_iff₀ more scale]
    linarith
  linarith

-- not so for larger numbers: one count in so many is rounded up to a part that is more than it
example : (doubleQuotient 1 1125501409).lt ⟨16005665, -54⟩ = false ∧
    2 ^ 54 < 16005665 * 1125501409 := by
  decide +kernel

/-- However many counts there are, a part of them is missed by no more than rounding moves. -/
theorem part_le_of_reached_nearly {count total : Nat} (some : 0 < count) (more : 0 < total)
    (reached : (doubleQuotient count total).lt fraction.magnitude = false) :
    fraction.magnitude.value * total ≤ (1 + 1 / 2 ^ 51) * count := by
  have reaches := not_lt.mp ((Scaled.lt_iff _ _).not.mp (Bool.eq_false_iff.mp reached))
  obtain ⟨-, fine, -⟩ := Single.magnitude_bounds unit
  have positive : 0 ≤ fraction.magnitude.value := by unfold Scaled.value; positivity
  have below : 0 < (toDouble total).value :=
    lt_of_lt_of_le (by positivity) (toDouble_bounds total more).1
  have up := (abs_sub_le_iff.mp (toDouble_error some)).1
  have down := (abs_sub_le_iff.mp (toDouble_error more)).2
  have moved := (abs_sub_le_iff.mp (doubleQuotient_error some more)).1
  generalize (toDouble count).value = above at up moved
  generalize (toDouble total).value = under at down moved below
  rcases le_total ((2 : ℚ) ^ (-1074 : Int) / 2) (above / under / 2 ^ 53) with normal | tiny
  · rw [max_eq_left normal] at moved
    have part : fraction.magnitude.value * under ≤ above * (1 + 1 / 2 ^ 53) := by
      have quotient : fraction.magnitude.value ≤ above * (1 + 1 / 2 ^ 53) / under := by
        calc fraction.magnitude.value ≤ above / under + above / under / 2 ^ 53 := by linarith
          _ = above * (1 + 1 / 2 ^ 53) / under := by ring
      exact (le_div_iff₀ below).mp quotient
    have shrunk : fraction.magnitude.value * (total * (1 - 1 / 2 ^ 53)) ≤
        fraction.magnitude.value * under :=
      mul_le_mul_of_nonneg_left (by linarith) positive
    have grown : above * (1 + 1 / 2 ^ 53) ≤ count * (1 + 1 / 2 ^ 53) * (1 + 1 / 2 ^ 53) :=
      mul_le_mul_of_nonneg_right (by linarith) (by positivity)
    have counted : (0 : ℚ) ≤ count := by positivity
    linarith
  -- a quotient below the normal numbers is below every part but none at all
  · rw [max_eq_right tiny] at moved
    have unit : (2 : ℚ) ^ (-1074 : Int) ≤ 2 ^ (-249 : Int) :=
      zpow_le_zpow_right₀ (by norm_num) (by norm_num)
    have small : fraction.magnitude.value < 2 ^ (-149 : Int) := by
      rw [div_le_iff₀ (by norm_num)] at tiny
      calc fraction.magnitude.value ≤ 2 ^ (-1074 : Int) * (2 ^ 53 + 1) := by linarith
        _ ≤ 2 ^ (-249 : Int) * (2 ^ 53 + 1) := mul_le_mul_of_nonneg_right unit (by norm_num)
        _ < 2 ^ (-149 : Int) := by norm_num
    have none : fraction.magnitude.mantissa = 0 := by
      by_contra nonzero
      have one : (1 : ℚ) ≤ fraction.magnitude.mantissa := by
        exact_mod_cast Nat.pos_of_ne_zero nonzero
      have scale : (2 : ℚ) ^ (-149 : Int) ≤ 2 ^ fraction.magnitude.exponent :=
        zpow_le_zpow_right₀ (by norm_num) fine
      have large : (2 : ℚ) ^ (-149 : Int) ≤ fraction.magnitude.value :=
        scale.trans (le_mul_of_one_le_left (by positivity) one)
      exact absurd small (not_lt.mpr large)
    rw [Scaled.value, none]
    simp only [Nat.cast_zero, zero_mul]
    positivity

end Parts

end ElasticJob.Number
