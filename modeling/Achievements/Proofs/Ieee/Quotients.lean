import Achievements.Proofs.Ieee.Narrowing
import Achievements.Proofs.Ieee.Sums

/-!
# Products and quotients of doubles

A product of significands is exact before it is rounded. A quotient is cut off after enough places,
and the remainder says on which side of half a place the rest lies. So these are placed where rounding
places the exact results, as sums are.
-/

set_option autoImplicit false

namespace Achievements.Ieee

open Float.Model (UnpackedFloat totalExponent)
open Float.Model.UnpackedFloat (ExtendedMantissa accuracyOfFraction)

theorem sign_mul (left right : Bool) : signOf left * signOf right = signOf (left != right) := by
  cases left <;> cases right <;> rfl

theorem sign_div (left right : Bool) : signOf left / signOf right = signOf (left != right) := by
  cases left <;> cases right <;> rfl

theorem signed_mul_signed (left right : Bool) (a b : ℚ) :
    signed (left != right) (a * b) = signed left a * signed right b := by
  cases left <;> cases right <;> simp [signed]

theorem signed_div_signed (left right : Bool) (a b : ℚ) :
    signed (left != right) (a / b) = signed left a / signed right b := by
  cases left <;> cases right <;> simp [signed, neg_div, div_neg]

/-! ## Products -/

section

variable {a b : ℕ} {c d : ℤ}

/-- The product of two significands has no place beyond that of the rounded one. -/
theorem product_place_le (first : Format.double.Normal a c) (second : Format.double.Normal b d)
    (aPos : 0 < a) (bPos : 0 < b) :
    c + d ≤ Format.double.unit ((a * b : ℕ) * 2 ^ (c + d)) := by
  have least : Format.double.lowest = -1074 := by decide
  have wide (large : 2 ^ 52 ≤ a * b) : 52 ≤ (a * b).log2 :=
    (Nat.le_log2 (Nat.mul_pos aPos bPos).ne').mpr large
  rw [double_unit, log_of_scaled (Nat.mul_pos aPos bPos)]
  by_cases subnormal : c = -1074
  · by_cases both : d = -1074
    · omega
    · have implicit : 2 ^ 52 ≤ b := second.implicit (least ▸ both)
      have := wide (implicit.trans (Nat.le_mul_of_pos_left b aPos))
      omega
  · have implicit : 2 ^ 52 ≤ a := first.implicit (least ▸ subnormal)
    have := wide (implicit.trans (Nat.le_mul_of_pos_right a bPos))
    omega

theorem place_of_product (left right : Bool) (first : Format.double.Normal a c)
    (second : Format.double.Normal b d) :
    (datum (packed (UnpackedFloat.mul .binary64 (unpacked (.finite left a c))
      (unpacked (.finite right b d))))).place =
        Format.double.placed (signed left (a * 2 ^ c) * signed right (b * 2 ^ d)) := by
  rw [← signed_mul_signed]
  rcases Nat.eq_zero_or_pos a with rfl | aPos
  · rw [Nat.cast_zero, zero_mul, zero_mul, signed_zero]
    rcases Nat.eq_zero_or_pos b with rfl | bPos
    · simp only [unpacked, lt_irrefl, dif_neg, not_false_eq_true, UnpackedFloat.mul, sign_mul]
      exact place_of_zero _
    · simp only [unpacked, lt_irrefl, dif_neg, not_false_eq_true, bPos, dif_pos, UnpackedFloat.mul,
        sign_mul]
      exact place_of_zero _
  · rcases Nat.eq_zero_or_pos b with rfl | bPos
    · rw [Nat.cast_zero, zero_mul, mul_zero, signed_zero]
      simp only [unpacked, lt_irrefl, dif_neg, not_false_eq_true, aPos, dif_pos, UnpackedFloat.mul,
        sign_mul]
      exact place_of_zero _
    · have positive : 0 < a * b := Nat.mul_pos aPos bPos
      have size : (0 : ℚ) < (a * b : ℕ) * 2 ^ (c + d) := by positivity
      have value : ((a * b : ℕ) : ℚ) * 2 ^ (c + d) = a * 2 ^ c * (b * 2 ^ d) := by
        rw [zpow_add₀ two_ne_zero, Nat.cast_mul]
        ring
      simp only [unpacked, aPos, bPos, dif_pos, UnpackedFloat.mul, sign_mul]
      rw [← value]
      exact place_of_rounded _ size (represents_exact (a * b)) rfl
        (target_exponent_eq positive (c + d)) (product_place_le first second aPos bPos)

end

/-! ## Quotients -/

/-- The remainder says what the two bits have to. -/
theorem represents_fraction (num : ℕ) {den : ℕ} (positive : 0 < den) :
    Represents (.ofMantissaAndAccuracy (num / den) (accuracyOfFraction (num % den) den))
      ((num : ℚ) / den) := by
  have wide : (0 : ℚ) < den := by exact_mod_cast positive
  have parts := div_eq_parts num positive
  have small : ((num % den : ℕ) : ℚ) < den := by exact_mod_cast Nat.mod_lt num positive
  rw [parts]
  generalize num / den = whole
  generalize num % den = rest at small
  rw [accuracyOfFraction]
  split
  · rename_i none
    rw [none, Nat.cast_zero, zero_div, add_zero]
    exact represents_exact whole
  · rename_i some
    have above : (0 : ℚ) < rest / den := by
      have : 0 < rest := Nat.pos_of_ne_zero some
      positivity
    have below : (rest : ℚ) / den < 1 := (div_lt_one wide).mpr small
    rcases lt_trichotomy (2 * rest) den with less | half | more
    · have nearer : (rest : ℚ) / den < 1 / 2 := by
        rw [div_lt_div_iff₀ wide two_pos]
        exact_mod_cast (by omega : rest * 2 < 1 * den)
      rw [compare_lt_iff_lt.mpr less]
      simp only [Represents, ExtendedMantissa.ofMantissaAndAccuracy, if_true, Bool.false_eq_true,
        if_false, add_zero]
      exact ⟨by linarith, by linarith⟩
    · have middle : (rest : ℚ) / den = 1 / 2 := by
        rw [div_eq_div_iff wide.ne' two_ne_zero]
        exact_mod_cast (by omega : rest * 2 = 1 * den)
      rw [compare_eq_iff_eq.mpr half, middle]
      simp [Represents, ExtendedMantissa.ofMantissaAndAccuracy]
    · have further : 1 / 2 < (rest : ℚ) / den := by
        rw [div_lt_div_iff₀ two_pos wide]
        exact_mod_cast (by omega : 1 * den < rest * 2)
      rw [compare_gt_iff_gt.mpr more]
      simp only [Represents, ExtendedMantissa.ofMantissaAndAccuracy, if_true]
      exact ⟨by linarith, by linarith⟩

/-- A quotient loses at most one place to the divisor. -/
theorem log_of_quotient {a b : ℕ} (aPos : 0 < a) (bPos : 0 < b) (c d : ℤ) :
    totalExponent a c - totalExponent b d - 1 ≤
      Int.log 2 ((a : ℚ) * 2 ^ c / (b * 2 ^ d)) := by
  have size : (0 : ℚ) < a * 2 ^ c / (b * 2 ^ d) := by positivity
  have low := zpow_log_le (by positivity : (0 : ℚ) < a * 2 ^ c)
  have high := lt_zpow_log ((b : ℚ) * 2 ^ d)
  rw [log_of_scaled aPos] at low
  rw [log_of_scaled bPos] at high
  apply (Int.zpow_le_iff_le_log (b := 2) (by decide) size).mp
  rw [Nat.cast_two, le_div_iff₀ (by positivity)]
  calc (2 : ℚ) ^ (totalExponent a c - totalExponent b d - 1) * (b * 2 ^ d)
      ≤ 2 ^ (totalExponent a c - totalExponent b d - 1) * 2 ^ ((b.log2 : ℤ) + d + 1) := by
        gcongr
    _ = 2 ^ ((a.log2 : ℤ) + c) := by
        rw [← zpow_add₀ two_ne_zero, totalExponent, totalExponent]
        congr 1
        ring
    _ ≤ a * 2 ^ c := low

theorem log_lt_of_part {part : ℚ} (small : part < 1) {place : ℤ} (positive : 0 < part * 2 ^ place) :
    Int.log 2 (part * 2 ^ place) < place := by
  apply (Int.lt_zpow_iff_log_lt (b := 2) (by decide) positive).mp
  rw [Nat.cast_two]
  exact mul_lt_of_lt_one_left (by positivity) small

/-- Cutting the fraction of a significand off does not change the last place to round to. -/
theorem target_of_floor {part : ℚ} {whole : ℕ} (above : (whole : ℚ) ≤ part)
    (below : part < whole + 1) {place : ℤ} (positive : 0 < part * 2 ^ place)
    (low : whole = 0 → place ≤ -1074) :
    Float.Model.Format.binary64.targetExponent (totalExponent whole place) =
      Format.double.unit (part * 2 ^ place) := by
  rcases Nat.eq_zero_or_pos whole with rfl | wholePos
  · have small := log_lt_of_part (by linarith [(Nat.cast_zero : ((0 : ℕ) : ℚ) = 0)]) positive
    have least := low rfl
    have none : totalExponent 0 place = 1 + place := rfl
    rw [target_exponent, double_unit, none]
    omega
  · have power : (2 : ℚ) ^ (whole.log2 : ℤ) ≤ whole := by
      exact_mod_cast Nat.log2_self_le wholePos.ne'
    have next : (whole : ℚ) + 1 ≤ 2 ^ ((whole.log2 : ℤ) + 1) := by
      exact_mod_cast Nat.lt_log2_self
    have log : Int.log 2 (part * 2 ^ place) = whole.log2 + place := by
      apply log_eq positive
      · rw [zpow_add₀ two_ne_zero]
        exact mul_le_mul_of_nonneg_right (power.trans above) (by positivity)
      · rw [add_right_comm, zpow_add₀ two_ne_zero]
        exact mul_lt_mul_of_pos_right (below.trans_le next) (by positivity)
    rw [target_exponent, double_unit, log, totalExponent]
    omega

section

variable {a b : ℕ} (bPos : 0 < b)
include bPos

theorem place_of_quotient (left right : Bool) (c d : ℤ) :
    (datum (packed (UnpackedFloat.div .binary64 (unpacked (.finite left a c))
      (unpacked (.finite right b d))))).place =
        Format.double.placed (signed left (a * 2 ^ c) / signed right (b * 2 ^ d)) := by
  rw [← signed_div_signed]
  rcases Nat.eq_zero_or_pos a with rfl | aPos
  · rw [Nat.cast_zero, zero_mul, zero_div, signed_zero]
    simp only [unpacked, lt_irrefl, dif_neg, not_false_eq_true, bPos, dif_pos, UnpackedFloat.div,
      sign_div]
    exact place_of_zero _
  · have size : (0 : ℚ) < a * 2 ^ c / (b * 2 ^ d) := by positivity
    have log := log_of_quotient aPos bPos c d
    simp only [unpacked, aPos, bPos, dif_pos, UnpackedFloat.div, UnpackedFloat.divCore, sign_div,
      target_exponent]
    generalize place : min (c - d) (max (totalExponent a c - totalExponent b d - 53) (-1074)) = t
    have fraction := represents_fraction (a <<< (c - d - t).toNat) bPos
    have value : ((a <<< (c - d - t).toNat : ℕ) : ℚ) / b * 2 ^ t = a * 2 ^ c / (b * 2 ^ d) := by
      rw [div_mul_eq_mul_div, lift_mantissa a (by omega), zpow_sub₀ two_ne_zero]
      field_simp
    apply place_of_rounded _ size fraction value
    · have whole := Nat.floor_div_eq_div (K := ℚ) (a <<< (c - d - t).toNat) b
      have above := Nat.floor_le (by positivity : (0 : ℚ) ≤ (a <<< (c - d - t).toNat : ℕ) / b)
      have below := Nat.lt_floor_add_one (((a <<< (c - d - t).toNat : ℕ) : ℚ) / b)
      rw [whole] at above below
      rw [← value] at size log ⊢
      refine target_of_floor above below size fun none => ?_
      rw [none, Nat.cast_zero, zero_add] at below
      have := log_lt_of_part below size
      omega
    · rw [double_unit]
      omega

end

section

variable {left right : Float}

theorem place_of_mul (leftFinite : isFinite left = true) (rightFinite : isFinite right = true) :
    (datum (left * right)).place = Format.double.placed (worth left * worth right) := by
  obtain ⟨_, _, _, first⟩ := Json.number_of_finite leftFinite
  obtain ⟨_, _, _, second⟩ := Json.number_of_finite rightFinite
  have product : left * right =
      packed (UnpackedFloat.mul .binary64 left.toModel.unpack right.toModel.unpack) := rfl
  rw [product, unpack_eq, unpack_eq, first, second, worth_of_number first, worth_of_number second]
  exact place_of_product _ _ (splits_of_double first).normal (splits_of_double second).normal

theorem place_of_div (leftFinite : isFinite left = true) (rightFinite : isFinite right = true)
    (nonzero : worth right ≠ 0) :
    (datum (left / right)).place = Format.double.placed (worth left / worth right) := by
  obtain ⟨_, _, _, first⟩ := Json.number_of_finite leftFinite
  obtain ⟨_, whole, _, second⟩ := Json.number_of_finite rightFinite
  have positive : 0 < whole := Nat.pos_of_ne_zero ((worth_eq_zero_iff second).not.mp nonzero)
  have quotient : left / right =
      packed (UnpackedFloat.div .binary64 left.toModel.unpack right.toModel.unpack) := rfl
  rw [quotient, unpack_eq, unpack_eq, first, second, worth_of_number first, worth_of_number second]
  exact place_of_quotient positive _ _ _ _

/-- A product that doubles have is exact. -/
theorem number_of_mul (leftFinite : isFinite left = true) (rightFinite : isFinite right = true)
    (has : Format.double.Has |worth left * worth right|) :
    isFinite (left * right) = true ∧ worth (left * right) = worth left * worth right :=
  exact_of_placed (place_of_mul leftFinite rightFinite) has

theorem number_of_div (leftFinite : isFinite left = true) (rightFinite : isFinite right = true)
    (nonzero : worth right ≠ 0) (has : Format.double.Has |worth left / worth right|) :
    isFinite (left / right) = true ∧ worth (left / right) = worth left / worth right :=
  exact_of_placed (place_of_div leftFinite rightFinite nonzero) has

/-- Leaving the sign out is exact. -/
theorem datum_of_abs {negative : Bool} {whole : ℕ} {exponent : ℤ}
    (number : datum left = .finite negative whole exponent) :
    datum left.abs = .finite false whole exponent := by
  have splits := splits_of_double number
  have unsigned : left.abs = packed (unpacked (.finite false whole exponent)) := by
    have sizes : left.abs = packed left.toModel.unpack.abs := rfl
    rw [sizes, unpack_eq, number, unpacked, unpacked]
    split <;> rfl
  rw [unsigned, packed_eq, pack_eq false splits.normal, min_eq_right splits.finite.le]
  exact datum_of_splits ⟨splits.normal, splits.finite, rfl⟩

theorem number_of_abs (finite : isFinite left = true) :
    isFinite left.abs = true ∧ worth left.abs = |worth left| := by
  obtain ⟨negative, whole, exponent, number⟩ := Json.number_of_finite finite
  have unsigned := datum_of_abs number
  refine ⟨Json.finite_of_number unsigned, ?_⟩
  rw [worth_of_number unsigned, worth_of_number number, abs_signed negative (by positivity), signed,
    if_neg Bool.false_ne_true]

end

end Achievements.Ieee
