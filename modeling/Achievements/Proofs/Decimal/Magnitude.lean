import Achievements.Decimal.Layout
import Achievements.Proofs.Decimal.Exactness

/-!
# Where positional notation ends

The layout of a double depends on the magnitude of its shortest decimal. A power of ten that is not
above the double nearest to it, and is the shortest decimal of that double, separates the doubles
just as it separates their shortest decimals: rounding is monotone, so a decimal on one side of it can
only belong to a double on the other side if that double is the nearest one.
-/

set_option autoImplicit false

namespace Achievements.Decimal

open Ieee

/-- The exponent of the leading digit. -/
def magnitude (decimal : Decimal) : ℤ :=
  decimal.exponent + (Text.decimal decimal.significand).length - 1

theorem lt_pow_length (number : ℕ) : number < 10 ^ (Text.decimal number).length := by
  have digits : ∀ c ∈ Text.decimal number, c.isDigit = true :=
    fun _ member => Json.is_digit_of_mem_decimal member
  have small := spelled_lt digits
  rwa [spelled_decimal] at small

theorem le_magnitude_iff {decimal : Decimal} (positive : 0 < decimal.significand) (place : ℤ) :
    place ≤ decimal.magnitude ↔ (10 : ℚ) ^ place ≤ decimal.toRat := by
  have ten : (0 : ℚ) < 10 := by norm_num
  have scale : (0 : ℚ) < 10 ^ decimal.exponent := by positivity
  have least : (10 : ℚ) ^ decimal.magnitude ≤ decimal.toRat := by
    have digits : (10 : ℚ) ^ (Text.decimal decimal.significand).length ≤
        10 * decimal.significand := by
      exact_mod_cast pow_length_le positive
    rw [magnitude, zpow_sub_one₀ ten.ne', zpow_add₀ ten.ne', zpow_natCast, toRat]
    rw [← div_eq_mul_inv, div_le_iff₀ ten]
    nlinarith
  have most : decimal.toRat < 10 ^ (decimal.magnitude + 1) := by
    have digits : (decimal.significand : ℚ) < 10 ^ (Text.decimal decimal.significand).length := by
      exact_mod_cast lt_pow_length decimal.significand
    rw [magnitude, sub_add_cancel, zpow_add₀ ten.ne', zpow_natCast, toRat, mul_comm]
    exact mul_lt_mul_of_pos_left digits scale
  constructor
  · intro le
    exact (zpow_le_zpow_right₀ (by norm_num) le).trans least
  · intro le
    have less := (zpow_lt_zpow_iff_right₀ (show (1 : ℚ) < 10 by norm_num)).mp (le.trans_lt most)
    omega

theorem exists_ratio {number : ℚ} (positive : 0 < number) :
    ∃ num den : ℕ, 0 < num ∧ 0 < den ∧ number = num / den := by
  have numPositive : 0 < number.num := Rat.num_pos.mpr positive
  obtain ⟨num, same⟩ := Int.eq_ofNat_of_zero_le numPositive.le
  refine ⟨num, number.den, by omega, number.den_pos, ?_⟩
  rw [← Int.cast_natCast num, ← same]
  exact (Rat.num_div_den number).symm

variable {whole : ℕ} {exponent : ℤ}

/-- The pattern of a double is that of the fractions near it. -/
theorem pattern_of_near (normal : Format.double.Normal whole exponent)
    (finite : Format.double.pattern whole exponent < Format.double.infinity) (positive : 0 < whole)
    {number : ℚ} (near : Format.double.Near whole exponent number) :
    ∃ num den : ℕ, 0 < den ∧ number = num / den ∧
      Format.double.nearest num den = Format.double.pattern whole exponent := by
  obtain ⟨num, den, numPositive, denPositive, ratio⟩ :=
    exists_ratio (Format.pos_of_near positive near)
  rw [ratio] at near
  refine ⟨num, den, denPositive, ratio, ?_⟩
  rw [Format.nearest_of_near numPositive denPositive normal near, min_eq_right finite.le]

/-- A fraction that separates doubles as it separates their shortest decimals. -/
structure Separates (tie : Tie) (num den : ℕ) : Prop where
  den_pos : 0 < den
  nearest : ∃ top place, Format.double.Normal top place ∧
    Format.double.pattern top place = Format.double.nearest num den ∧
    (num : ℚ) / den ≤ top * 2 ^ place ∧ (num : ℚ) / den ≤ (shortest tie top place).toRat

theorem shortest_reaches_iff {tie : Tie} {num den : ℕ} (separates : Separates tie num den)
    (normal : Format.double.Normal whole exponent)
    (finite : Format.double.pattern whole exponent < Format.double.infinity)
    (positive : 0 < whole) :
    (num : ℚ) / den ≤ (shortest tie whole exponent).toRat ↔
      (num : ℚ) / den ≤ whole * 2 ^ exponent := by
  obtain ⟨denPositive, top, place, topNormal, topPattern, reached, shortestReaches⟩ := separates
  have near := shortest_near tie positive exponent
  obtain ⟨a, b, bPositive, decimal, decimalNearest⟩ := pattern_of_near normal finite positive near
  have self := Format.double.near_self whole exponent
  obtain ⟨c, d, dPositive, value, valueNearest⟩ := pattern_of_near normal finite positive self
  constructor
  · intro le
    rw [decimal] at le
    have patterns := Format.double.nearest_le_nearest denPositive bPositive le
    rw [decimalNearest, ← topPattern] at patterns
    exact reached.trans (Format.value_le_of_pattern_le topNormal normal patterns)
  · intro le
    by_contra under
    rw [not_le, decimal] at under
    rw [value] at le
    have below := Format.double.nearest_le_nearest bPositive denPositive under.le
    have above := Format.double.nearest_le_nearest denPositive dPositive le
    rw [decimalNearest, ← topPattern] at below
    rw [valueNearest, ← topPattern] at above
    -- The double is the one nearest to the fraction.
    have same : Format.double.pattern whole exponent = Format.double.pattern top place :=
      le_antisymm below above
    have decoded := Format.decode_of_splits
      (show Format.double.Splits _ false whole exponent from ⟨normal, finite, rfl⟩)
    rw [same, Format.decode_of_splits
      (show Format.double.Splits _ false top place from ⟨topNormal, same ▸ finite, rfl⟩)] at decoded
    cases decoded
    rw [decimal] at shortestReaches
    exact absurd shortestReaches (not_le.mpr under)

/-! ## Bounds of positional notation -/

theorem large_bound : Separates .up (10 ^ 16) 1 := by
  have least : shortest .up (5 * 10 ^ 15) 1 = ⟨1, 16⟩ := by decide
  refine ⟨Nat.one_pos, 5 * 10 ^ 15, 1, ⟨by decide, by decide, fun _ => by decide⟩, by decide,
    by norm_num, ?_⟩
  rw [least, toRat]
  norm_num

/-- The double nearest to this bound is above it. -/
theorem small_bound : Separates .up 1 (10 ^ 4) := by
  have least : shortest .up 7378697629483821 (-66) = ⟨1, -4⟩ := by decide
  refine ⟨by decide, 7378697629483821, -66, ⟨by decide, by decide, fun _ => by decide⟩,
    by decide, by norm_num, ?_⟩
  rw [least, toRat]
  norm_num

theorem magnitude_within_iff (normal : Format.double.Normal whole exponent)
    (finite : Format.double.pattern whole exponent < Format.double.infinity)
    (positive : 0 < whole) :
    -4 ≤ (shortest .up whole exponent).magnitude ∧ (shortest .up whole exponent).magnitude < 16 ↔
      (1 : ℚ) / 10 ^ 4 ≤ whole * 2 ^ exponent ∧ (whole : ℚ) * 2 ^ exponent < 10 ^ 16 := by
  have significand := shortest_significand_pos .up positive exponent
  have low := shortest_reaches_iff small_bound normal finite positive
  have high := shortest_reaches_iff large_bound normal finite positive
  have lowPower : (10 : ℚ) ^ (-4 : ℤ) = (1 : ℕ) / (10 ^ 4 : ℕ) := by norm_num
  have highPower : (10 : ℚ) ^ (16 : ℤ) = (10 ^ 16 : ℕ) / (1 : ℕ) := by norm_num
  rw [← not_le, le_magnitude_iff significand, le_magnitude_iff significand, lowPower, highPower, low,
    high, not_le]
  norm_num

end Achievements.Decimal
