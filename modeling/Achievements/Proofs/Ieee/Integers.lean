import Achievements.Proofs.Decimal.Exactness
import Achievements.Proofs.Ieee.Rounding

/-!
# Doubles and integers

Small integers are doubles. The other way a double loses its fraction and is clamped to the range of
64-bit integers: `to_int_truncate`, with the whole part as a function of rational numbers. Where 32 bits
have room for it, `to_uint32` gives the same whole part.
-/

set_option autoImplicit false

namespace Achievements.Ieee

/-- A number without its fraction. -/
def towardZero (number : ℚ) : ℤ :=
  if 0 ≤ number then ⌊number⌋ else ⌈number⌉

theorem toward_zero_signed (negative : Bool) {size : ℚ} (nonnegative : 0 ≤ size) :
    towardZero (signed negative size) = if negative then -⌊size⌋ else ⌊size⌋ := by
  cases negative with
  | false => exact if_pos nonnegative
  | true =>
      rw [towardZero, signed, if_pos rfl, if_pos rfl]
      rcases nonnegative.eq_or_lt with rfl | positive
      · simp
      · rw [if_neg (by linarith), Int.ceil_neg]

theorem whole_part_eq (mantissa : ℕ) (exponent : ℤ) :
    (wholePart mantissa exponent : ℤ) = ⌊(mantissa : ℚ) * 2 ^ exponent⌋ := by
  have size : (0 : ℚ) ≤ mantissa * 2 ^ exponent := by positivity
  rw [← Int.natCast_floor_eq_floor size, Nat.cast_inj, wholePart]
  split
  · rename_i nonnegative
    rw [← nat_pow_two nonnegative, ← Nat.cast_mul, Nat.floor_natCast]
  · rename_i negative
    have fraction : (mantissa : ℚ) * 2 ^ exponent =
        mantissa / (Nat.pow 2 (-exponent).toNat : ℕ) := by
      rw [nat_pow_two (by omega), zpow_neg, div_inv_eq_mul]
    rw [fraction, Nat.floor_div_eq_div]

theorem to_int_truncate {value : Float} (finite : isFinite value = true) :
    (truncate value).toInt = max (-9223372036854775808)
      (min (towardZero (worth value)) 9223372036854775807) := by
  obtain ⟨negative, whole, exponent, number⟩ := Json.number_of_finite finite
  have least : Int64.minValue.toInt = -9223372036854775808 := by decide
  have largest : Int64.maxValue.toInt = 9223372036854775807 := by decide
  rw [truncate, number, worth_of_number number, toward_zero_signed negative (by positivity),
    ← whole_part_eq]
  simp only [least, largest]
  generalize (if negative then -(wholePart whole exponent : ℤ) else wholePart whole exponent) = part
  have range : Int64.size = 18446744073709551616 := rfl
  rw [Int64.toInt_ofInt, range]
  exact Int.bmod_eq_of_le (by omega) (by omega)

section Unsigned

open Float.Model (UnpackedFloat)
open Float.Model.UnpackedFloat (ExtendedMantissa)

theorem mantissa_of_shift (extended : ExtendedMantissa) (count : ℕ) :
    (extended >>> count).mantissa = extended.mantissa / 2 ^ count := by
  induction count with
  | zero => rw [pow_zero, Nat.div_one]; rfl
  | succ count ih =>
      rw [pow_succ, ← Nat.div_div_eq_div_mul, ← ih]
      rfl

theorem round_to_int (whole : ℕ) (exponent : ℤ) :
    UnpackedFloat.roundToInt (signOf false) whole exponent = wholePart whole exponent := by
  have plus (size : ℕ) : (signOf false).apply size = size := rfl
  simp only [UnpackedFloat.roundToInt, UnpackedFloat.decreaseExponent,
    UnpackedFloat.shiftToExponent, plus, mantissa_of_shift, wholePart,
    ExtendedMantissa.ofMantissaAndAccuracy, sub_zero, Nat.shiftLeft_eq]
  split
  · rename_i nonnegative
    rw [show (0 - (exponent - exponent.toNat)).toNat = 0 by omega, pow_zero, Nat.div_one]
    rfl
  · rename_i negative
    rw [show exponent.toNat = 0 by omega, pow_zero, Nat.mul_one]
    simp

/-- A double from zero on and below 2 ^ 32 is converted to its whole part. -/
theorem to_uint32 {value : Float} (finite : isFinite value = true) (nonnegative : 0 ≤ worth value)
    (small : worth value < 2 ^ 32) : (value.toUInt32.toNat : ℤ) = ⌊worth value⌋ := by
  obtain ⟨negative, whole, exponent, number⟩ := Json.number_of_finite finite
  have converted : value.toUInt32 = value.toModel.unpack.toUInt32 := rfl
  rw [worth_of_number number] at nonnegative small ⊢
  rw [converted, unpack_eq, number, unpacked]
  rcases Nat.eq_zero_or_pos whole with rfl | positive
  · rw [dif_neg (lt_irrefl 0), Nat.cast_zero, zero_mul, signed_zero, Int.floor_zero]
    rfl
  · have plus : negative = false := by
      have size : (0 : ℚ) < whole * 2 ^ exponent := by positivity
      exact Bool.eq_false_iff.mpr fun minus =>
        not_lt.mpr nonnegative ((signed_neg_iff negative size).mpr minus)
    subst plus
    rw [signed, if_neg Bool.false_ne_true] at small ⊢
    have below : wholePart whole exponent < 2 ^ 32 := by
      have parts := Int.floor_lt (a := (whole : ℚ) * 2 ^ exponent) (z := 2 ^ 32)
      rw [← whole_part_eq] at parts
      exact_mod_cast parts.mpr (by exact_mod_cast small)
    rw [dif_pos positive, UnpackedFloat.toUInt32, UnpackedFloat.toInt, round_to_int,
      Int.toNat_natCast, UInt32.toNat_ofNatClamp_of_lt below, whole_part_eq]

end Unsigned

/-- Integers of at most 53 bits are doubles. -/
theorem number_of_int {value : ℤ} (small : value.natAbs < 2 ^ 53) :
    isFinite (doubleOfInt value) = true ∧ worth (doubleOfInt value) = value := by
  obtain ⟨whole, exponent, number, -, same⟩ := number_of_whole (value < 0) small
  refine ⟨Json.finite_of_number number, ?_⟩
  rw [doubleOfInt, worth_of_number number, same, signed]
  rcases lt_or_ge value 0 with negative | nonnegative
  · rw [if_pos (decide_eq_true negative)]
    rw [Nat.cast_natAbs, abs_of_neg negative, Int.cast_neg, neg_neg]
  · rw [if_neg (by simpa using nonnegative), Nat.cast_natAbs, abs_of_nonneg nonnegative]

end Achievements.Ieee
