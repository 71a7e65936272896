import Achievements.Proofs.Decimal.Exactness
import Achievements.Proofs.Json.Fields

/-!
# Doubles that are written and read

Every finite double is read from its text as a finite double, though not always as itself. It is read
as itself if all its written digits and its power of ten are doubles.
-/

set_option autoImplicit false

namespace Achievements.Json

open Ieee Decimal

theorem number_of_finite {value : Float} (finite : isFinite value = true) :
    ∃ negative whole exponent, datum value = .finite negative whole exponent := by
  unfold isFinite at finite
  split at finite
  · rename_i negative whole exponent number
    exact ⟨negative, whole, exponent, number⟩
  · cases finite

theorem finite_of_number {value : Float} {negative : Bool} {whole : ℕ} {exponent : ℤ}
    (number : datum value = .finite negative whole exponent) : isFinite value = true := by
  rw [isFinite, number]

namespace Numeral

/-- A decimal is always written with a point or an exponent. -/
theorem not_integer_of_decimal (negative : Bool) (decimal : Decimal) :
    ¬((ofDecimal negative decimal).fraction = [] ∧ (ofDecimal negative decimal).exponent = none) := by
  have nonempty : Text.decimal decimal.significand ≠ [] := Nat.toDigits_ne_nil
  rintro ⟨noFraction, noExponent⟩
  rw [ofDecimal] at noFraction noExponent
  split at noFraction
  · exact (parts_of_positional negative nonempty decimal.exponent).1 noFraction
  · rename_i place
    rw [if_neg place] at noExponent
    cases noExponent

theorem of_real_eq {value : Float} {negative : Bool} {whole : ℕ} {exponent : ℤ}
    (number : datum value = .finite negative whole exponent) :
    ofReal value = ofDecimal negative (shortest .toEven whole exponent) := by
  rw [ofReal, number]

theorem negative_of_decimal (negative : Bool) (decimal : Decimal) :
    (ofDecimal negative decimal).negative = negative := by
  rw [ofDecimal]
  split
  · exact (parts_of_positional negative Nat.toDigits_ne_nil decimal.exponent).2.2
  · rfl

end Numeral

/-- The double that a finite double is read as from its own text. -/
def nextReal (negative : Bool) (whole : ℕ) (exponent : ℤ) : Float :=
  estimate negative (Numeral.ofDecimal negative (shortest .toEven whole exponent)).taken

theorem reread_real {value : Float} {negative : Bool} {whole : ℕ} {exponent : ℤ}
    (number : datum value = .finite negative whole exponent) :
    (Json.real value).reread = Json.ofReal (nextReal negative whole exponent) := by
  rw [reread, if_pos (finite_of_number number), Numeral.of_real_eq number, Numeral.value,
    if_neg (Numeral.not_integer_of_decimal negative _), Numeral.negative_of_decimal]
  rfl

/-! ## Finite doubles -/

/-- The largest double and the one before it. -/
theorem normal_near_top : ∀ less ∈ [1, 2], Format.double.Normal (2 ^ 53 - less) 971 := by
  intro less member
  constructor
  · decide
  · rcases List.mem_pair.mp member with rfl | rfl <;> decide
  · intro _
    rcases List.mem_pair.mp member with rfl | rfl <;> decide

theorem pattern_near_top : ∀ less ∈ [1, 2],
    Format.double.pattern (2 ^ 53 - less) 971 + less = Format.double.infinity := by
  decide

theorem exponent_le_of_finite {whole : ℕ} {exponent : ℤ}
    (normal : Format.double.Normal whole exponent)
    (finite : Format.double.pattern whole exponent < Format.double.infinity) : exponent ≤ 971 := by
  have lowest : Format.double.lowest = -1074 := by decide
  have limits : Nat.pow 2 Format.double.fractionBits = 2 ^ 52 ∧
      Format.double.infinity = 2047 * 2 ^ 52 := by decide
  by_contra beyond
  have implicit := normal.implicit (by omega)
  rw [Format.pattern, limits.1, limits.2] at finite
  rw [limits.1] at implicit
  omega

/-- Half a place above a double before the largest one. -/
theorem below_ceiling {whole : ℕ} {exponent : ℤ} (normal : Format.double.Normal whole exponent)
    (below : Format.double.pattern whole exponent + 1 < Format.double.infinity) :
    ((whole : ℚ) + 1 / 2) * 2 ^ exponent ≤ ceiling := by
  have before := pattern_near_top 2 (by simp)
  have le := Format.value_le_of_pattern_le normal (normal_near_top 2 (by simp)) (by omega)
  have exponentLe := exponent_le_of_finite normal (by omega)
  have place : (2 : ℚ) ^ exponent ≤ 2 ^ (971 : ℤ) := zpow_le_zpow_right₀ one_le_two exponentLe
  have top : (halfPlace : ℤ) + 1 = 971 := rfl
  rw [ceiling_eq, top, add_mul, add_mul]
  exact add_le_add le (by gcongr)

theorem next_of_top (negative : Bool) : isFinite (nextReal negative (2 ^ 53 - 1) 971) = true := by
  cases negative <;> decide +kernel

theorem taken_le (negative : Bool) (decimal : Decimal) :
    (Numeral.ofDecimal negative decimal).taken.significand ≤ Text.limit64 ∧
      (Numeral.ofDecimal negative decimal).taken.toRat ≤ decimal.toRat := by
  rw [← Numeral.to_rat_of_decimal negative decimal]
  exact of_digits_le _ (Numeral.whole_of_decimal_fits negative decimal)

theorem next_real_finite {negative : Bool} {whole : ℕ} {exponent : ℤ}
    (normal : Format.double.Normal whole exponent)
    (finite : Format.double.pattern whole exponent < Format.double.infinity) :
    isFinite (nextReal negative whole exponent) = true := by
  by_cases below : Format.double.pattern whole exponent + 1 < Format.double.infinity
  · obtain ⟨fits, le⟩ := taken_le negative (shortest .toEven whole exponent)
    apply estimate_finite negative fits (le.trans ?_)
    rcases Nat.eq_zero_or_pos whole with rfl | positive
    · have zero : (shortest .toEven 0 exponent).toRat = 0 := by
        rw [shortest, if_pos rfl, Decimal.toRat, Nat.cast_zero, zero_mul]
      rw [zero]
      exact Nat.cast_nonneg ceiling
    · exact (shortest_near .toEven positive exponent).below.trans (below_ceiling normal below)
  · have top := pattern_near_top 1 (by simp)
    have same : Format.double.pattern whole exponent = Format.double.pattern (2 ^ 53 - 1) 971 := by
      omega
    have split : Format.double.Splits _ false whole exponent := ⟨normal, finite, rfl⟩
    have topSplit : Format.double.Splits _ false (2 ^ 53 - 1) 971 :=
      ⟨normal_near_top 1 (by simp), by omega, rfl⟩
    have decoded := Format.decode_of_splits split
    rw [same, Format.decode_of_splits topSplit] at decoded
    cases decoded
    exact next_of_top negative

theorem is_some_reread_real (value : Float) :
    (rereadReal? value).isSome = true ↔ isFinite value = true := by
  rw [rereadReal?]
  cases finite : isFinite value with
  | false =>
      rw [reread, finite]
      simp [asReal?]
  | true =>
      obtain ⟨negative, whole, exponent, number⟩ := number_of_finite finite
      have splits := splits_of_double number
      rw [reread_real number, Json.ofReal, if_pos (next_real_finite splits.normal splits.finite)]
      simp [asReal?]

/-! ## Short doubles -/

/-- A double that is written with digits and a power of ten that are doubles themselves. -/
def Short (value : Float) : Prop :=
  (Numeral.ofReal value).decimal.Exact

theorem next_of_short {value : Float} {negative : Bool} {whole : ℕ} {exponent : ℤ}
    (number : datum value = .finite negative whole exponent) (short : Short value) :
    nextReal negative whole exponent = value := by
  rw [Short, Numeral.of_real_eq number] at short
  have fits : (Numeral.ofDecimal negative
      (shortest .toEven whole exponent)).decimal.significand ≤ Text.limit64 :=
    short.digits.le.trans (show 2 ^ 53 ≤ Text.limit64 by decide)
  rw [nextReal, Numeral.taken_eq fits]
  rcases Nat.eq_zero_or_pos whole with rfl | positive
  · have least : shortest .toEven 0 exponent = ⟨0, 0⟩ := if_pos rfl
    have zero : (Numeral.ofDecimal negative ⟨0, 0⟩).decimal.significand = 0 := rfl
    rw [least, estimate, if_pos zero]
    exact double_of_zero number
  · have same := Numeral.to_rat_of_decimal negative (shortest .toEven whole exponent)
    rw [Numeral.toRat] at same
    exact estimate_of_near number positive short (same ▸ shortest_near .toEven positive exponent)

theorem lasting_of_short {value : Float} (finite : isFinite value = true) (short : Short value) :
    Lasting value := by
  obtain ⟨negative, whole, exponent, number⟩ := number_of_finite finite
  rw [Lasting, rereadReal?, reread_real number, next_of_short number short, Json.ofReal, if_pos finite]
  rfl

end Achievements.Json
