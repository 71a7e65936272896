import Achievements.Decimal.Estimate
import Achievements.Proofs.Decimal.Digits
import Achievements.Proofs.Ieee.Patterns

/-!
# Reading in two roundings

A finite double is never read as an infinite one: the shortest decimal exceeds its double by at most
half a place, and what the two roundings add to that stays below the limit.
-/

set_option autoImplicit false

namespace Achievements

namespace Ieee

/-- The magnitude of a finite double. -/
def size (value : Float) : ℚ :=
  (ratio value).1 / (ratio value).2

theorem ratio_den_pos (value : Float) : 0 < (ratio value).2 := by
  unfold ratio
  split
  · split
    · exact Nat.one_pos
    · exact Nat.pow_pos two_pos
  · exact Nat.one_pos

theorem size_nonneg (value : Float) : 0 ≤ size value := by
  unfold size
  positivity

theorem size_of_number {value : Float} {negative : Bool} {whole : ℕ} {exponent : ℤ}
    (number : datum value = .finite negative whole exponent) :
    size value = whole * 2 ^ exponent := by
  rw [size, ratio, number]
  simp only
  split
  · rename_i nonnegative
    rw [Nat.cast_mul, nat_pow_two nonnegative, Nat.cast_one, div_one]
  · rename_i isNegative
    rw [nat_pow_two (by omega), zpow_neg, div_inv_eq_mul]

theorem number_of_ratio {num den : ℕ}
    (finite : Format.double.nearest num den < Format.double.infinity) :
    ∃ whole exponent, Format.double.Normal whole exponent ∧
      Format.double.pattern whole exponent = Format.double.nearest num den ∧
      ∀ negative, datum (doubleOfRatio negative num den) = .finite negative whole exponent := by
  obtain ⟨whole, exponent, normal, same⟩ := Format.exists_normal finite
  refine ⟨whole, exponent, normal, same, fun negative => ?_⟩
  apply datum_of_splits ⟨normal, same ▸ finite, ?_⟩
  rw [Format.nearestSigned, same]
  rfl

theorem finite_of_ratio {num den : ℕ} (negative : Bool)
    (finite : Format.double.nearest num den < Format.double.infinity) :
    isFinite (doubleOfRatio negative num den) = true := by
  obtain ⟨whole, exponent, _, _, number⟩ := number_of_ratio finite
  rw [isFinite, number negative]

theorem size_le_size {a b c d : ℕ} (bPositive : 0 < b) (dPositive : 0 < d)
    (le : (a : ℚ) / b ≤ c / d) (finite : Format.double.nearest c d < Format.double.infinity) :
    size (doubleOfRatio false a b) ≤ size (doubleOfRatio false c d) := by
  have patterns := Format.double.nearest_le_nearest bPositive dPositive le
  obtain ⟨first, firstExponent, firstNormal, firstSame, firstNumber⟩ :=
    number_of_ratio (patterns.trans_lt finite)
  obtain ⟨second, secondExponent, secondNormal, secondSame, secondNumber⟩ := number_of_ratio finite
  rw [size_of_number (firstNumber false), size_of_number (secondNumber false)]
  apply Format.value_le_of_pattern_le firstNormal secondNormal
  rwa [firstSame, secondSame]

theorem product_finite (negative : Bool) {first second bound other : Float}
    (firstLe : size first ≤ size bound) (secondLe : size second ≤ size other)
    (finite : Format.double.nearest ((ratio bound).1 * (ratio other).1)
      ((ratio bound).2 * (ratio other).2) < Format.double.infinity) :
    isFinite (product negative first second) = true := by
  apply finite_of_ratio
  refine lt_of_le_of_lt (Format.double.nearest_le_nearest ?_ ?_ ?_) finite
  · exact Nat.mul_pos (ratio_den_pos first) (ratio_den_pos second)
  · exact Nat.mul_pos (ratio_den_pos bound) (ratio_den_pos other)
  · push_cast
    rw [← div_mul_div_comm, ← div_mul_div_comm]
    exact mul_le_mul firstLe secondLe (size_nonneg second) (size_nonneg bound)

/-- The bound of a quotient by a double of at least one, as a double. -/
def settled (bound : Float) : Float :=
  doubleOfRatio false (ratio bound).1 (ratio bound).2

theorem quotient_le {first second bound : Float} (firstLe : size first ≤ size bound)
    (atLeastOne : 1 ≤ size second)
    (finite : Format.double.nearest (ratio bound).1 (ratio bound).2 < Format.double.infinity) :
    (∀ negative, isFinite (quotient negative first second) = true) ∧
      size (quotient false first second) ≤ size (settled bound) := by
  have numPos : 0 < (ratio second).1 := by
    apply Nat.pos_of_ne_zero
    intro zero
    rw [size, zero, Nat.cast_zero, zero_div] at atLeastOne
    exact absurd atLeastOne (by norm_num)
  have denPos := Nat.mul_pos (ratio_den_pos first) numPos
  have le : (((ratio first).1 * (ratio second).2 : ℕ) : ℚ) /
      ((ratio first).2 * (ratio second).1 : ℕ) ≤ (ratio bound).1 / (ratio bound).2 := by
    have split : (((ratio first).1 * (ratio second).2 : ℕ) : ℚ) /
        ((ratio first).2 * (ratio second).1 : ℕ) = size first / size second := by
      rw [size, size, div_div_div_eq]
      push_cast
      rfl
    rw [split]
    exact (div_le_self (size_nonneg first) atLeastOne).trans firstLe
  constructor
  · intro negative
    apply finite_of_ratio
    exact (Format.double.nearest_le_nearest denPos (ratio_den_pos bound) le).trans_lt finite
  · exact size_le_size denPos (ratio_den_pos bound) le finite

end Ieee

namespace Decimal

open Ieee

/-! ## No overflow -/

/-- The exponent of half a place of the largest doubles. -/
def halfPlace : ℕ := 970

/-- The end of the rounding interval of the last but one double of a binade. -/
@[irreducible]
def binadeEnd (place : ℕ) : ℕ :=
  (Nat.pow 2 54 - 3) * Nat.pow 2 place

/-- The end of the rounding interval of the double before the largest one. -/
@[irreducible]
def ceiling : ℕ :=
  binadeEnd halfPlace

/-- The largest significand in front of a power of ten below the ceiling. -/
def topSignificand (exponent : ℕ) : ℕ :=
  min Text.limit64 (ceiling / Nat.pow 10 exponent)

/-- The largest double that a significand is read as. -/
def topStart : Float :=
  doubleOfRatio false Text.limit64 1

theorem top_start_finite : Format.double.nearest Text.limit64 1 < Format.double.infinity := by
  decide

theorem top_power_finite :
    Format.double.nearest (Nat.pow 10 topPower) 1 < Format.double.infinity := by
  decide +kernel

/-- The products near the limit. Smaller ones are below the first of them. -/
theorem top_products_finite : ∀ place < 21,
    Format.double.nearest
      ((ratio (doubleOfRatio false (topSignificand (288 + place)) 1)).1 *
        (ratio (powerOfTen (288 + place))).1)
      ((ratio (doubleOfRatio false (topSignificand (288 + place)) 1)).2 *
        (ratio (powerOfTen (288 + place))).2) < Format.double.infinity := by
  decide +kernel

theorem start_le {first second : ℕ} (le : first ≤ second) (fits : second ≤ Text.limit64) :
    size (doubleOfRatio false first 1) ≤ size (doubleOfRatio false second 1) := by
  have ratios {a b : ℕ} (le : a ≤ b) : (a : ℚ) / (1 : ℕ) ≤ b / (1 : ℕ) := by
    rw [Nat.cast_one, div_one, div_one]
    exact_mod_cast le
  apply size_le_size Nat.one_pos Nat.one_pos (ratios le)
  exact (Format.double.nearest_le_nearest Nat.one_pos Nat.one_pos (ratios fits)).trans_lt
    top_start_finite

theorem power_le {first second : ℕ} (le : first ≤ second) (fits : second ≤ topPower) :
    size (powerOfTen first) ≤ size (powerOfTen second) := by
  have ratios {a b : ℕ} (le : a ≤ b) :
      ((Nat.pow 10 a : ℕ) : ℚ) / (1 : ℕ) ≤ (Nat.pow 10 b : ℕ) / (1 : ℕ) := by
    rw [Nat.cast_one, div_one, div_one]
    exact_mod_cast Nat.pow_le_pow_right (by decide) le
  apply size_le_size Nat.one_pos Nat.one_pos (ratios le)
  exact (Format.double.nearest_le_nearest Nat.one_pos Nat.one_pos (ratios fits)).trans_lt
    top_power_finite

theorem one_le_power {exponent : ℕ} (fits : exponent ≤ topPower) : 1 ≤ size (powerOfTen exponent) := by
  have one : ratio (powerOfTen 0) = (2 ^ 52, 2 ^ 52) := by decide
  have first := power_le (Nat.zero_le exponent) fits
  rw [size, one] at first
  norm_num at first
  exact first

theorem settled_finite :
    Format.double.nearest (ratio topStart).1 (ratio topStart).2 < Format.double.infinity ∧
      Format.double.nearest (ratio (settled topStart)).1 (ratio (settled topStart)).2 <
        Format.double.infinity := by
  decide

theorem binade_end_eq (place : ℕ) :
    (binadeEnd place : ℚ) = ((2 ^ 53 - 2 : ℕ) + 1 / 2) * 2 ^ ((place : ℤ) + 1) := by
  have half : ((Nat.pow 2 place : ℕ) : ℚ) = 2 ^ (place : ℤ) :=
    nat_pow_two (Int.natCast_nonneg place)
  have odd : ((Nat.pow 2 54 - 3 : ℕ) : ℚ) = ((2 ^ 53 - 2 : ℕ) + 1 / 2) * 2 := by
    norm_num
  rw [binadeEnd, zpow_add_one₀ two_ne_zero, Nat.cast_mul, half, odd]
  ring

theorem ceiling_eq : (ceiling : ℚ) = ((2 ^ 53 - 2 : ℕ) + 1 / 2) * 2 ^ ((halfPlace : ℤ) + 1) := by
  rw [ceiling]
  exact binade_end_eq halfPlace

theorem ceiling_lt : ceiling < Nat.pow 10 (topPower + 1) := by
  decide +kernel

theorem exists_top {significand exponent : ℕ} (fits : significand ≤ Text.limit64)
    (small : exponent ≤ topPower) (below : significand * Nat.pow 10 exponent ≤ ceiling) :
    ∃ place < 21, exponent ≤ 288 + place ∧ significand ≤ topSignificand (288 + place) := by
  have top {place : ℕ} (within : significand ≤ ceiling / Nat.pow 10 (288 + place)) :
      significand ≤ topSignificand (288 + place) := by
    rw [topSignificand]
    exact le_min fits within
  -- Up to 10 ^ 288 the significand is not bounded by the ceiling, but by what 64 bits hold.
  rcases Nat.le_total exponent 288 with low | high
  · have room : Text.limit64 ≤ ceiling / Nat.pow 10 (288 + 0) := by decide +kernel
    exact ⟨0, by decide, low, top (fits.trans room)⟩
  · obtain ⟨place, rfl⟩ := Nat.exists_eq_add_of_le high
    have within : significand ≤ ceiling / Nat.pow 10 (288 + place) :=
      (Nat.le_div_iff_mul_le (Nat.pow_pos (by decide))).mpr below
    rw [topPower] at small
    exact ⟨place, by omega, le_rfl, top within⟩

theorem above_ceiling {decimal : Decimal} (nonzero : decimal.significand ≠ 0)
    (large : (topPower : ℤ) < decimal.exponent) : (ceiling : ℚ) < decimal.toRat := by
  have atLeastOne : (1 : ℚ) ≤ decimal.significand := by
    exact_mod_cast Nat.one_le_iff_ne_zero.mpr nonzero
  have bound : (ceiling : ℚ) < (Nat.pow 10 (topPower + 1) : ℕ) := Nat.cast_lt.mpr ceiling_lt
  rw [Nat.pow_eq, Nat.cast_pow, Nat.cast_ofNat, ← zpow_natCast] at bound
  calc (ceiling : ℚ) < (10 : ℚ) ^ ((topPower + 1 : ℕ) : ℤ) := bound
    _ ≤ (10 : ℚ) ^ decimal.exponent :=
        zpow_le_zpow_right₀ (by norm_num) (by rw [Nat.cast_add_one]; exact large)
    _ ≤ decimal.toRat := le_mul_of_one_le_left (by positivity) atLeastOne

/-- A decimal below the ceiling is read as a finite double. -/
theorem estimate_finite (negative : Bool) {decimal : Decimal}
    (fits : decimal.significand ≤ Text.limit64) (below : decimal.toRat ≤ ceiling) :
    isFinite (estimate negative decimal) = true := by
  have zero : Format.double.nearest 0 1 < Format.double.infinity := by decide
  have startLe : size (doubleOfRatio false decimal.significand 1) ≤ size topStart :=
    start_le fits le_rfl
  -- Only products can overflow; a quotient by at least one stays below its first part.
  rw [estimate]
  split
  · exact finite_of_ratio negative zero
  · rename_i nonzero
    split
    · rename_i large
      exact absurd below (not_le.mpr (above_ceiling nonzero large))
    · rename_i small
      split
      · rename_i nonnegative
        obtain ⟨exponent, same⟩ := Int.eq_ofNat_of_zero_le nonnegative
        have whole : decimal.significand * Nat.pow 10 exponent ≤ ceiling := by
          rw [toRat, same, zpow_natCast] at below
          exact_mod_cast below
        obtain ⟨place, few, exponentLe, significandLe⟩ := exists_top fits (by omega) whole
        rw [same, Int.toNat_natCast]
        exact product_finite negative (start_le significandLe (min_le_left _ _))
          (power_le exponentLe (by rw [topPower]; omega)) (top_products_finite place few)
      · split
        · rename_i few
          exact (quotient_le startLe (one_le_power few) settled_finite.1).1 negative
        · split
          · rename_i many
            have first := (quotient_le startLe (one_le_power le_rfl) settled_finite.1).2
            have rest : (-decimal.exponent).toNat - topPower ≤ topPower := by omega
            exact (quotient_le first (one_le_power rest) settled_finite.2).1 negative
          · exact finite_of_ratio negative zero

end Decimal

end Achievements
