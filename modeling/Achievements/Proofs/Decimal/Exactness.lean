import Achievements.Proofs.Decimal.Estimates

/-!
# Decimals that are read exactly

A decimal whose digits and whose power of ten are doubles themselves is rounded only once, and so the
shortest decimal of a double is read as that double if it is of this kind.
-/

set_option autoImplicit false

namespace Achievements

namespace Ieee

variable {value : Float} {negative : Bool} {whole : ℕ} {exponent : ℤ}

theorem nearest_signed_of_near {format : Format} (normal : format.Normal whole exponent)
    (finite : format.pattern whole exponent < format.infinity) {num den : ℕ}
    (numPositive : 0 < num) (denPositive : 0 < den)
    (near : format.Near whole exponent (num / den)) (negative : Bool) :
    format.nearestSigned negative num den =
      format.signWeight negative + format.pattern whole exponent := by
  rw [Format.nearestSigned, Format.nearest_of_near numPositive denPositive normal near,
    min_eq_right finite.le]
  rfl

/-- A fraction near a double is rounded to it. -/
theorem double_of_near (number : datum value = .finite negative whole exponent) {num den : ℕ}
    (numPositive : 0 < num) (denPositive : 0 < den)
    (near : Format.double.Near whole exponent (num / den)) :
    doubleOfRatio negative num den = value := by
  have splits := splits_of_double number
  rw [doubleOfRatio, nearest_signed_of_near splits.normal splits.finite numPositive denPositive near]
  exact double_of_splits number

theorem num_pos_of_size (positive : 0 < size value) : 0 < (ratio value).1 := by
  apply Nat.pos_of_ne_zero
  intro zero
  rw [size, zero, Nat.cast_zero, zero_div] at positive
  exact lt_irrefl 0 positive

theorem product_of_near (number : datum value = .finite negative whole exponent)
    {first second : Float} (firstPos : 0 < size first) (secondPos : 0 < size second)
    (near : Format.double.Near whole exponent (size first * size second)) :
    product negative first second = value := by
  apply double_of_near number
  · exact Nat.mul_pos (num_pos_of_size firstPos) (num_pos_of_size secondPos)
  · exact Nat.mul_pos (ratio_den_pos first) (ratio_den_pos second)
  · rwa [Nat.cast_mul, Nat.cast_mul, ← div_mul_div_comm]

theorem quotient_of_near (number : datum value = .finite negative whole exponent)
    {first second : Float} (firstPos : 0 < size first) (secondPos : 0 < size second)
    (near : Format.double.Near whole exponent (size first / size second)) :
    quotient negative first second = value := by
  apply double_of_near number
  · exact Nat.mul_pos (num_pos_of_size firstPos) (ratio_den_pos second)
  · exact Nat.mul_pos (ratio_den_pos first) (num_pos_of_size secondPos)
  · rwa [Nat.cast_mul, Nat.cast_mul, ← div_div_div_eq]

theorem double_of_zero (number : datum value = .finite negative 0 exponent) :
    doubleOfRatio negative 0 1 = value := by
  have implicit := (splits_of_double number).normal.implicit
  have lowest : exponent = Format.double.lowest := by
    by_contra other
    exact absurd (implicit other) (by decide)
  have same := double_of_splits number
  rw [lowest, Format.pattern_subnormal] at same
  rw [doubleOfRatio, Format.nearestSigned, Format.nearest, if_pos rfl]
  exact same

theorem normal_of_whole {number : ℕ} (positive : 0 < number) (small : number < 2 ^ 53) :
    Format.double.Normal (number * 2 ^ (52 - number.log2)) (-(52 - number.log2 : ℕ)) := by
  have lowest : Format.double.lowest = -1074 := by decide
  have implicit : Nat.pow 2 Format.double.fractionBits = 2 ^ 52 := rfl
  have log : number.log2 < 53 := (Nat.log2_lt positive.ne').mpr small
  have low : 2 ^ number.log2 ≤ number := Nat.log2_self_le positive.ne'
  have high : number < 2 ^ (number.log2 + 1) := Nat.lt_log2_self
  have bits : 2 ^ number.log2 * 2 ^ (52 - number.log2) = 2 ^ 52 := by
    rw [← Nat.pow_add]
    congr 1
    omega
  refine ⟨by omega, ?_, fun _ => ?_⟩
  · rw [implicit, ← bits, ← Nat.mul_assoc, Nat.mul_comm 2, ← Nat.pow_succ]
    exact Nat.mul_lt_mul_of_pos_right high (Nat.pow_pos two_pos)
  · rw [implicit, ← bits]
    exact Nat.mul_le_mul_right _ low

/-- Whole numbers below 2 ^ 53 are doubles. -/
theorem number_of_whole (negative : Bool) {number : ℕ} (small : number < 2 ^ 53) :
    ∃ whole exponent, datum (doubleOfRatio negative number 1) = .finite negative whole exponent ∧
      exponent ≤ 0 ∧ (whole : ℚ) * 2 ^ exponent = number := by
  rcases Nat.eq_zero_or_pos number with rfl | positive
  · refine ⟨0, Format.double.lowest, ?_, by decide, by rw [Nat.cast_zero, zero_mul]⟩
    cases negative <;> decide
  · have normal := normal_of_whole positive small
    have value : ((number * 2 ^ (52 - number.log2) : ℕ) : ℚ) *
        2 ^ (-((52 - number.log2 : ℕ) : ℤ)) = (number : ℚ) / (1 : ℕ) := by
      rw [Nat.cast_mul, Nat.cast_pow, Nat.cast_ofNat, zpow_neg, zpow_natCast, Nat.cast_one, div_one]
      field_simp
    have near := Format.double.near_self (number * 2 ^ (52 - number.log2)) (-(52 - number.log2 : ℕ))
    rw [value] at near
    have finite : Format.double.pattern (number * 2 ^ (52 - number.log2))
        (-(52 - number.log2 : ℕ)) < Format.double.infinity := by
      have lowest : Format.double.lowest = -1074 := by decide
      have limits : Nat.pow 2 Format.double.fractionBits = 2 ^ 52 ∧
          Format.double.infinity = 2047 * 2 ^ 52 := by decide
      have small := normal.whole_lt
      rw [Format.pattern, limits.1, limits.2] at *
      omega
    refine ⟨_, _, ?_, Int.neg_nonpos_of_nonneg (Int.natCast_nonneg _),
      value.trans (by rw [Nat.cast_one, div_one])⟩
    exact datum_of_splits
      ⟨normal, finite, nearest_signed_of_near normal finite positive Nat.one_pos near negative⟩

theorem size_of_whole {number : ℕ} (small : number < 2 ^ 53) :
    size (doubleOfRatio false number 1) = number := by
  obtain ⟨whole, exponent, finite, -, same⟩ := number_of_whole false small
  rw [size_of_number finite, same]

end Ieee

namespace Decimal

open Ieee

/-! ## One rounding -/

/-- A decimal whose digits and whose power of ten are doubles. -/
structure Exact (decimal : Decimal) : Prop where
  digits : decimal.significand < 2 ^ 53
  power : decimal.exponent.natAbs ≤ 22

theorem exact_powers : ∀ exponent ≤ 22, (ratio (powerOfTen exponent)).1 =
    10 ^ exponent * (ratio (powerOfTen exponent)).2 := by
  decide

theorem size_of_power {exponent : ℕ} (small : exponent ≤ 22) :
    size (powerOfTen exponent) = 10 ^ exponent := by
  have positive : ((ratio (powerOfTen exponent)).2 : ℚ) ≠ 0 := by
    exact_mod_cast (ratio_den_pos (powerOfTen exponent)).ne'
  rw [size, exact_powers exponent small, Nat.cast_mul, mul_div_cancel_right₀ _ positive,
    Nat.cast_pow, Nat.cast_ofNat]

/-- An exact decimal near a double is read as that double. -/
theorem estimate_of_near {value : Float} {negative : Bool} {whole : ℕ} {exponent : ℤ}
    (number : datum value = .finite negative whole exponent) {decimal : Decimal}
    (positive : 0 < whole) (exact : Exact decimal)
    (near : Format.double.Near whole exponent decimal.toRat) : estimate negative decimal = value := by
  have digits := significand_pos (Format.pos_of_near positive near)
  have start := size_of_whole exact.digits
  have startPos : 0 < size (doubleOfRatio false decimal.significand 1) := by
    rw [start]
    exact Nat.cast_pos.mpr digits
  have power {places : ℕ} (few : places ≤ 22) : 0 < size (powerOfTen places) := by
    rw [size_of_power few]
    positivity
  have few := exact.power
  have room : topPower = 308 := rfl
  -- Both operands are exact, so that only the last rounding counts.
  rw [estimate, if_neg digits.ne', if_neg (by omega)]
  rw [toRat, ← start] at near
  split
  · rename_i nonnegative
    obtain ⟨places, same⟩ := Int.eq_ofNat_of_zero_le nonnegative
    have fewPlaces : places ≤ 22 := by omega
    rw [same, zpow_natCast, ← size_of_power fewPlaces] at near
    rw [same, Int.toNat_natCast]
    exact product_of_near number startPos (power fewPlaces) near
  · rename_i isNegative
    obtain ⟨places, same⟩ := Int.eq_ofNat_of_zero_le (a := -decimal.exponent) (by omega)
    have fewPlaces : places ≤ 22 := by omega
    rw [← neg_neg decimal.exponent, same, zpow_neg, zpow_natCast, ← div_eq_mul_inv,
      ← size_of_power fewPlaces] at near
    rw [same, Int.toNat_natCast, if_pos (by omega)]
    exact quotient_of_near number startPos (power fewPlaces) near

end Decimal

end Achievements
