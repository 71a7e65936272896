import Achievements.Decimal.Shortest
import Achievements.Proofs.Ieee.Nearest

/-!
# The shortest decimal lies in the rounding interval

The search for a decimal compares products of natural numbers. Here its comparisons are read as
comparisons of rational numbers, from which it follows that whatever is found lies in the interval
of the numbers that round to the double, and in particular is not zero.
-/

set_option autoImplicit false

namespace Achievements.Decimal

open Ieee

/-- The rational number that a decimal stands for. -/
def toRat (decimal : Decimal) : ℚ :=
  decimal.significand * (10 : ℚ) ^ decimal.exponent

theorem on_grid_eq (num den : Nat) (exponent : Int) :
    ((onGrid num den exponent).1 : ℚ) / (onGrid num den exponent).2 =
      (num : ℚ) / den / (10 : ℚ) ^ exponent := by
  unfold onGrid
  split
  · rename_i nonnegative
    rw [Nat.cast_mul, nat_pow_eq_zpow 10 nonnegative, div_div]
    rfl
  · rename_i negative
    rw [Nat.cast_mul, nat_pow_eq_zpow 10 (by omega), zpow_neg, Nat.cast_ofNat]
    field_simp

theorem on_grid_unit_pos {den : Nat} (positive : 0 < den) (num : Nat) (exponent : Int) :
    0 < (onGrid num den exponent).2 := by
  unfold onGrid
  split
  · exact Nat.mul_pos positive (Nat.pow_pos (by decide))
  · exact positive

theorem on_grid_unit_eq (first second den : Nat) (exponent : Int) :
    (onGrid first den exponent).2 = (onGrid second den exponent).2 := by
  unfold onGrid
  split <;> rfl

namespace Interval

/-- Does a rational number lie in the interval? -/
def Holds (interval : Interval) (number : ℚ) : Prop :=
  if interval.closed then
    (interval.low : ℚ) / interval.den ≤ number ∧ number ≤ (interval.high : ℚ) / interval.den
  else (interval.low : ℚ) / interval.den < number ∧ number < (interval.high : ℚ) / interval.den

variable {interval : Interval}

theorem contains_iff (positive : 0 < interval.den) (point : Nat) (exponent : Int) :
    interval.contains point exponent = true ↔ interval.Holds (toRat ⟨point, exponent⟩) := by
  have unit : (0 : ℚ) < (10 : ℚ) ^ exponent := by positivity
  have lowUnit := on_grid_unit_pos positive interval.low exponent
  have low := on_grid_eq interval.low interval.den exponent
  have high := on_grid_eq interval.high interval.den exponent
  rw [on_grid_unit_eq interval.high interval.low] at high
  rw [contains, Holds, toRat]
  simp only
  generalize (onGrid interval.low interval.den exponent).1 = scaledLow at *
  generalize (onGrid interval.low interval.den exponent).2 = width at *
  generalize (onGrid interval.high interval.den exponent).1 = scaledHigh at *
  have wide : (0 : ℚ) < width := Nat.cast_pos.mpr lowUnit
  have fromLow : (interval.low : ℚ) / interval.den = scaledLow / width * 10 ^ exponent := by
    rw [low, div_mul_cancel₀ _ unit.ne']
  have fromHigh : (interval.high : ℚ) / interval.den = scaledHigh / width * 10 ^ exponent := by
    rw [high, div_mul_cancel₀ _ unit.ne']
  rw [fromLow, fromHigh]
  split
  · rw [mul_le_mul_iff_left₀ unit, mul_le_mul_iff_left₀ unit, div_le_iff₀ wide, le_div_iff₀ wide,
      Bool.and_eq_true, decide_eq_true_eq, decide_eq_true_eq]
    norm_cast
  · rw [mul_lt_mul_iff_left₀ unit, mul_lt_mul_iff_left₀ unit, div_lt_iff₀ wide, lt_div_iff₀ wide,
      Bool.and_eq_true, decide_eq_true_eq, decide_eq_true_eq]
    norm_cast

theorem contains_of_pick {tie : Tie} {exponent : Int} {point : Nat}
    (picked : interval.pick tie exponent = some point) :
    interval.contains point exponent = true := by
  unfold pick at picked
  simp only at picked
  generalize (onGrid interval.value interval.den exponent).1 /
    (onGrid interval.value interval.den exponent).2 = below at *
  split at picked
  · cases picked
  · cases picked
    assumption
  · cases picked
    assumption
  · rename_i holdsBelow holdsAbove
    split at picked
    · cases picked
      exact holdsBelow
    · split at picked
      · cases picked
        exact holdsAbove
      · cases tie with
        | up =>
            cases picked
            exact holdsAbove
        | toEven =>
            cases picked
            rcases Nat.mod_two_eq_zero_or_one below with even | odd
            · rw [even]
              exact holdsBelow
            · rw [odd]
              exact holdsAbove

theorem holds_of_search (positive : 0 < interval.den) {tie : Tie} {count : Nat} {exponent : Int}
    {found : Decimal} (success : interval.search tie count exponent = some found) :
    interval.Holds found.toRat := by
  induction count generalizing exponent with
  | zero => cases success
  | succ count ih =>
      rw [search] at success
      split at success
      · rename_i point picked
        cases success
        exact (contains_iff positive point exponent).mp (contains_of_pick picked)
      · exact ih success

end Interval

theorem to_rat_of_trim (count : Nat) (decimal : Decimal) :
    (trimZeros count decimal).toRat = decimal.toRat := by
  induction count generalizing decimal with
  | zero => rfl
  | succ count ih =>
      rw [trimZeros]
      split
      · rename_i trailing
        have whole : decimal.significand = decimal.significand / 10 * 10 := by omega
        rw [ih, toRat, toRat, zpow_add_one₀ (by decide)]
        conv_rhs => rw [whole]
        push_cast
        ring
      · rfl

theorem to_rat_of_exact (mantissa : Nat) (exponent : Int) :
    (exact mantissa exponent).toRat = mantissa * (2 : ℚ) ^ exponent := by
  unfold exact toRat
  split
  · rename_i nonnegative
    rw [Nat.cast_mul, nat_pow_eq_zpow 2 nonnegative, zpow_zero, mul_one]
    rfl
  · rename_i negative
    have places : (10 : ℚ) ^ exponent = 2 ^ exponent * 5 ^ exponent := by
      rw [← mul_zpow]
      norm_num
    rw [Nat.cast_mul, nat_pow_eq_zpow 5 (by omega), places, zpow_neg, Nat.cast_ofNat]
    field_simp

namespace Interval

variable {mantissa : Nat} {exponent : Int}

theorem den_of_around_pos (mantissa : Nat) (exponent : Int) :
    0 < (around mantissa exponent).den := by
  unfold around
  simp only
  split
  · decide
  · exact Nat.pow_pos (by decide)

theorem quarters_of_around (mantissa : Nat) (exponent : Int) (number : Nat) :
    ((number * (if 2 ≤ exponent then Nat.pow 2 (exponent - 2).toNat else 1) : Nat) : ℚ) /
        (around mantissa exponent).den = number * 2 ^ (exponent - 2) := by
  unfold around
  simp only
  split
  · rw [Nat.cast_mul, nat_pow_eq_zpow 2 (by omega), Nat.cast_one, div_one]
    rfl
  · rw [nat_pow_eq_zpow 2 (by omega), mul_one, show 2 - exponent = -(exponent - 2) by omega, zpow_neg,
      div_inv_eq_mul]
    rfl

theorem high_of_around (mantissa : Nat) (exponent : Int) :
    ((around mantissa exponent).high : ℚ) / (around mantissa exponent).den =
      (mantissa + 1 / 2) * 2 ^ exponent := by
  refine (quarters_of_around mantissa exponent (4 * mantissa + 2)).trans ?_
  rw [zpow_sub₀ two_ne_zero]
  push_cast
  ring

theorem low_of_around (positive : 0 < mantissa) (exponent : Int) :
    ((around mantissa exponent).low : ℚ) / (around mantissa exponent).den =
      (mantissa - Format.double.reach mantissa exponent) * 2 ^ exponent := by
  have quarters := quarters_of_around mantissa exponent
  rw [Format.reach, show (around mantissa exponent).low =
    (if mantissa = Nat.pow 2 Format.double.fractionBits ∧ exponent ≠ Format.double.lowest then
      4 * mantissa - 1 else 4 * mantissa - 2) *
        (if 2 ≤ exponent then Nat.pow 2 (exponent - 2).toNat else 1) from rfl]
  split
  · rw [quarters, Nat.cast_sub (by omega), zpow_sub₀ two_ne_zero]
    push_cast
    ring
  · rw [quarters, Nat.cast_sub (by omega), zpow_sub₀ two_ne_zero]
    push_cast
    ring

theorem closed_of_around (mantissa : Nat) (exponent : Int) :
    (around mantissa exponent).closed = (mantissa % 2 == 0) := rfl

/-- The interval of a double holds the numbers that round to it. -/
theorem holds_iff_near (positive : 0 < mantissa) (exponent : Int) (number : ℚ) :
    (around mantissa exponent).Holds number ↔ Format.double.Near mantissa exponent number := by
  rw [Holds, low_of_around positive, high_of_around, closed_of_around]
  split
  · rename_i even
    rw [beq_iff_eq] at even
    exact ⟨fun inside => ⟨inside.1, inside.2, fun odd => by omega⟩,
      fun near => ⟨near.above, near.below⟩⟩
  · rename_i odd
    rw [beq_iff_eq] at odd
    exact ⟨fun inside => ⟨inside.1.le, inside.2.le, fun _ => inside⟩,
      fun near => near.open_if_odd (by omega)⟩

theorem holds_of_value (positive : 0 < mantissa) (exponent : Int) :
    (around mantissa exponent).Holds (mantissa * 2 ^ exponent) :=
  (holds_iff_near positive exponent _).mpr (Format.double.near_self mantissa exponent)

end Interval

/-- The shortest decimal of a double rounds to it. -/
theorem shortest_near (tie : Tie) {mantissa : Nat} (positive : 0 < mantissa) (exponent : Int) :
    Format.double.Near mantissa exponent (shortest tie mantissa exponent).toRat := by
  rw [← Interval.holds_iff_near positive, shortest, if_neg positive.ne']
  simp only [to_rat_of_trim]
  cases found : (Interval.around mantissa exponent).search tie 17
      (floorLog10 (Interval.around mantissa exponent).value
        (Interval.around mantissa exponent).den) with
  | none =>
      rw [Option.getD_none, to_rat_of_exact]
      exact Interval.holds_of_value positive exponent
  | some decimal =>
      exact Interval.holds_of_search (Interval.den_of_around_pos mantissa exponent) found

theorem significand_pos {decimal : Decimal} (positive : 0 < decimal.toRat) :
    0 < decimal.significand := by
  apply Nat.pos_of_ne_zero
  intro zero
  rw [toRat, zero, Nat.cast_zero, zero_mul] at positive
  exact lt_irrefl 0 positive

theorem shortest_significand_pos (tie : Tie) {mantissa : Nat} (positive : 0 < mantissa)
    (exponent : Int) : 0 < (shortest tie mantissa exponent).significand :=
  significand_pos (Format.pos_of_near positive (shortest_near tie positive exponent))

end Achievements.Decimal
