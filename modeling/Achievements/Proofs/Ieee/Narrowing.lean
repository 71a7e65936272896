import Achievements.Proofs.Decimal.Exactness
import Achievements.Proofs.Ieee.Rounding

/-!
# Formats of four bytes

Every single is a double, and narrowing a double gives the single that it is rounded to. The upper
half of a double is a double whose significand ends in zeros: what remains is the number with the
last places cut off, as a format with 32 fewer places has it.
-/

set_option autoImplicit false

namespace Achievements.Ieee

namespace Format

/-- The numbers whose doubles end in 32 zeros. -/
def upper : Format := ⟨20, 11⟩

end Format

/-! ## Numbers of a format -/

namespace Format

variable {format : Format}

/-- Sizes that a finite pattern stands for. -/
def Has (format : Format) (size : ℚ) : Prop :=
  ∃ whole exponent, format.Normal whole exponent ∧
    format.pattern whole exponent < format.infinity ∧ (whole : ℚ) * 2 ^ exponent = size

theorem placed_of_has (top : 1 ≤ format.topField) {size : ℚ} (has : format.Has size)
    (negative : Bool) :
    format.placed (signed negative size) = ((signed negative size : ℚ) : WithTop ℚ) := by
  obtain ⟨whole, exponent, normal, finite, rfl⟩ := has
  exact placed_of_normal top normal finite negative

/-- A number of the format has the pattern that it was made of, however it is written. -/
theorem encode_of_normal {whole : ℕ} {exponent : ℤ} (normal : format.Normal whole exponent)
    (finite : format.pattern whole exponent < format.infinity) {mantissa : ℕ} {place : ℤ}
    (value : (mantissa : ℚ) * 2 ^ place = whole * 2 ^ exponent) (negative : Bool) :
    format.encode (.finite negative mantissa place) =
      format.signWeight negative + format.pattern whole exponent := by
  obtain ⟨num, den, denPositive, ratio, nearest⟩ := exists_ratio mantissa place
  rw [value] at ratio
  rw [encode, nearest]
  rcases Nat.eq_zero_or_pos num with rfl | positive
  -- Zero has no logarithm, and only one significand.
  · have zero : whole = 0 := by
      rw [Nat.cast_zero, zero_div, eq_comm, mul_eq_zero, or_iff_left (by positivity)] at ratio
      exact_mod_cast ratio
    subst zero
    have least : exponent = format.lowest := by
      by_contra other
      exact absurd (normal.implicit other) (not_le.mpr (Nat.pow_pos two_pos))
    rw [least, pattern_subnormal, nearestSigned, Format.nearest, if_pos rfl, signWeight]
  · have near := format.near_self whole exponent
    rw [← ratio] at near
    exact nearest_signed_of_near normal finite positive denPositive near negative

end Format

theorem double_has_zero : Format.double.Has 0 :=
  ⟨0, -1074, ⟨le_rfl, by decide, fun other => absurd rfl other⟩, by decide,
    by rw [Nat.cast_zero, zero_mul]⟩

/-- Numbers of at most 53 bits are doubles, unless they are very large or small. -/
theorem double_has {whole : ℕ} {exponent : ℤ} (small : whole < 2 ^ 53) (low : -1022 ≤ exponent)
    (below : (whole : ℚ) * 2 ^ exponent < Format.double.limit) :
    Format.double.Has (whole * 2 ^ exponent) := by
  rcases Nat.eq_zero_or_pos whole with rfl | positive
  · rw [Nat.cast_zero, zero_mul]
    exact double_has_zero
  -- Few bits get their leading bit by shifting up, which the range allows.
  · have scaled := normal_of_whole positive small
    have least : Format.double.lowest = -1074 := by decide
    have gap : (52 - whole.log2 : ℕ) ≤ 52 := Nat.sub_le _ _
    have value : ((whole * 2 ^ (52 - whole.log2) : ℕ) : ℚ) *
        2 ^ (exponent - (52 - whole.log2 : ℕ)) = whole * 2 ^ exponent := by
      rw [Nat.cast_mul, Nat.cast_pow, Nat.cast_ofNat, zpow_sub₀ two_ne_zero, zpow_natCast]
      field_simp
    have normal : Format.double.Normal (whole * 2 ^ (52 - whole.log2))
        (exponent - (52 - whole.log2 : ℕ)) :=
      ⟨by omega, scaled.whole_lt, fun _ => scaled.implicit (by omega)⟩
    refine ⟨_, _, normal, ?_, value⟩
    rwa [Format.finite_iff (by decide) normal, value]

/-- The double of a number that doubles have. -/
theorem datum_of_normal {whole : ℕ} {exponent : ℤ} (normal : Format.double.Normal whole exponent)
    (finite : Format.double.pattern whole exponent < Format.double.infinity) {mantissa : ℕ}
    {place : ℤ} (value : (mantissa : ℚ) * 2 ^ place = whole * 2 ^ exponent) (negative : Bool) :
    datum (doubleOfDatum (.finite negative mantissa place)) = .finite negative whole exponent :=
  datum_of_splits ⟨normal, finite, Format.encode_of_normal normal finite value negative⟩

/-- A double that is placed by rounding a number that doubles have is that number. -/
theorem exact_of_placed {value : Float} {number : ℚ}
    (place : (datum value).place = Format.double.placed number)
    (has : Format.double.Has |number|) : isFinite value = true ∧ worth value = number := by
  have placed := Format.placed_of_has (by decide) has (number < 0)
  rw [signed_abs] at placed
  exact finite_of_place (place.trans placed)

/-- The bits of a double are those that it was made of, but for the patterns of no number. -/
theorem to_bits_of_number {bits : ℕ} (small : bits < 2 ^ 64)
    (number : Format.double.decode bits ≠ .nan) : (doubleOfBits bits).toBits.toNat = bits := by
  have signs : 2 * Format.double.signBit = 2 ^ 64 := by decide
  cases decoded : Format.double.decode bits with
  | nan => exact absurd decoded number
  | infinite negative =>
      rw [Format.bits_of_infinite (signs ▸ small) decoded]
      cases negative <;> decide
  | finite negative whole exponent =>
      have known := (datum_of_bits small).trans decoded
      exact (splits_of_double known).bits_eq.trans
        (Format.splits_of_decode (signs ▸ small) decoded).bits_eq.symm

/-! ## Singles -/

theorem single_limit_le : Format.single.limit ≤ Format.double.limit := by
  have places : (Format.single.fractionBits : ℤ) +
      (Format.single.lowest + (Format.single.topField - 1 : ℕ)) ≤ Format.double.fractionBits +
        (Format.double.lowest + (Format.double.topField - 1 : ℕ)) := by decide
  exact zpow_le_zpow_right₀ one_le_two places

/-- Singles are doubles with fewer places. -/
theorem double_has_single {whole : ℕ} {exponent : ℤ}
    (normal : Format.single.Normal whole exponent)
    (finite : Format.single.pattern whole exponent < Format.single.infinity) :
    Format.double.Has (whole * 2 ^ exponent) := by
  have lowest : -149 ≤ exponent := normal.lowest_le
  have small : whole < 2 * 2 ^ 23 := normal.whole_lt
  have below := (Format.finite_iff (by decide) normal).mp finite
  exact double_has (by omega) (by omega) (below.trans_le single_limit_le)

/-- A single is placed as a double where it is as a single. -/
theorem place_widen (bits : UInt32) :
    (datum (widen bits)).place = (Format.single.decode bits.toNat).place := by
  rw [widen]
  cases decoded : Format.single.decode bits.toNat with
  | nan => decide
  | infinite negative => cases negative <;> decide
  | finite negative whole exponent =>
      have splits := Format.splits_of_decode bits.toNat_lt decoded
      have has := double_has_single splits.normal splits.finite
      rw [place_of_double, Format.placed_of_has (by decide) has, Datum.place]

/-- A single comes back from the double that it is. -/
theorem narrow_widen {bits : UInt32} (number : Format.single.decode bits.toNat ≠ .nan) :
    narrow (widen bits) = bits := by
  apply UInt32.toNat_inj.mp
  cases decoded : Format.single.decode bits.toNat with
  | nan => exact absurd decoded number
  | infinite negative =>
      rw [widen, decoded, Format.bits_of_infinite bits.toNat_lt decoded]
      cases negative <;> decide
  | finite negative whole exponent =>
      have splits := Format.splits_of_decode bits.toNat_lt decoded
      obtain ⟨same, place, normal, finite, value⟩ :=
        double_has_single splits.normal splits.finite
      have wide := datum_of_normal normal finite value.symm negative
      rw [narrow, widen, decoded, wide,
        Format.encode_of_normal splits.normal splits.finite value negative, ← splits.bits_eq,
        UInt32.ofNat_toNat]

/-- A double is narrowed to the single that it is rounded to. -/
theorem place_narrow {value : Float} (finite : isFinite value = true) :
    (datum (widen (narrow value))).place = Format.single.placed (worth value) := by
  obtain ⟨negative, whole, exponent, number⟩ := Json.number_of_finite finite
  obtain ⟨num, den, positive, ratio, nearest⟩ := exists_ratio whole exponent
  have small := nearest_signed_lt Format.single negative num den
  have bits : (narrow value).toNat = Format.single.nearestSigned negative num den := by
    rw [narrow, number, Format.encode, nearest]
    exact UInt32.toNat_ofNat_of_lt small
  rw [place_widen, bits, Format.place_of_nearest (by decide) negative positive, ratio,
    worth_of_number number]

/-! ## Upper halves of doubles -/

theorem upper_unit_eq (number : ℚ) : Format.upper.unit number = Format.double.unit number + 32 := by
  change max (-1042) (Int.log 2 number - 20) = max (-1074) (Int.log 2 number - 52) + 32
  omega

theorem truncated_upper_size {whole : ℕ} {exponent : ℤ}
    (normal : Format.double.Normal whole exponent) :
    Format.upper.truncatedSize (whole * 2 ^ exponent) =
      (whole / 2 ^ 32 * 2 ^ 32 : ℕ) * 2 ^ exponent := by
  rcases Nat.eq_zero_or_pos whole with rfl | positive
  · rw [Nat.cast_zero, zero_mul, Format.truncated_size_zero]
    simp
  · have wide : (2 : ℚ) ^ (exponent + 32) = 2 ^ exponent * (2 ^ 32 : ℕ) := by
      rw [zpow_add₀ two_ne_zero]
      norm_cast
    have place : (2 : ℚ) ^ exponent ≠ 0 := by positivity
    rw [Format.truncatedSize, upper_unit_eq, Format.unit_of_normal normal positive, wide,
      mul_comm (whole : ℚ), mul_div_mul_left _ _ place, Nat.floor_div_eq_div]
    push_cast
    ring

/-- The upper half of a finite double is the number with its last places cut off. -/
theorem place_upper {value : Float} (finite : isFinite value = true) :
    (datum (doubleOfBits (value.toBits.toNat / 2 ^ 32 * 2 ^ 32))).place =
      ((Format.upper.truncated (worth value) : ℚ) : WithTop ℚ) := by
  obtain ⟨negative, whole, exponent, number⟩ := Json.number_of_finite finite
  obtain ⟨normal, below, bits⟩ := splits_of_double number
  have lowest : -1074 ≤ exponent := normal.lowest_le
  have small : whole < 2 * 2 ^ 52 := normal.whole_lt
  have implicit : exponent ≠ -1074 → 2 ^ 52 ≤ whole := normal.implicit
  have cut : Format.double.Normal (whole / 2 ^ 32 * 2 ^ 32) exponent := by
    refine ⟨lowest, lt_of_le_of_lt (Nat.div_mul_le_self _ _) small, fun other => ?_⟩
    have least : 2 ^ 52 ≤ whole / 2 ^ 32 * 2 ^ 32 := by
      have := implicit other
      omega
    exact least
  have pattern (significand : ℕ) : Format.double.pattern significand exponent =
      (exponent - -1074).toNat * 2 ^ 52 + significand := rfl
  have weight : Format.double.signWeight negative = negative.toNat * 2 ^ 63 := by
    cases negative <;> rfl
  have half : value.toBits.toNat / 2 ^ 32 * 2 ^ 32 = Format.double.signWeight negative +
      Format.double.pattern (whole / 2 ^ 32 * 2 ^ 32) exponent := by
    rw [bits, pattern, pattern, weight]
    omega
  have splits : Format.double.Splits _ negative _ exponent := ⟨cut, by
    rw [pattern] at below ⊢
    exact lt_of_le_of_lt (Nat.add_le_add_left (Nat.div_mul_le_self _ _) _) below, half⟩
  rw [datum_of_splits splits, Datum.place, worth_of_number number, Format.truncated,
    by_size_signed Format.upper.truncated_size_zero negative (by positivity),
    truncated_upper_size normal]

end Achievements.Ieee
