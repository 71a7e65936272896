import Achievements.Proofs.Ieee.Order

/-!
# Rounding as a function of rational numbers

`Format.rounded` is what rounding to a format does to a rational number, whatever the largest number
of the format, and `Format.placed` says where the result is once numbers that are too large have
become infinite. `Format.place_of_nearest` says that the patterns computed with natural numbers stand
for just that. `Format.truncated` cuts the last places off instead.
-/

set_option autoImplicit false

namespace Achievements.Ieee

/-! ## Signs -/

/-- A change of sizes, made to a number of either sign. -/
def bySize (change : ℚ → ℚ) (number : ℚ) : ℚ :=
  signed (number < 0) (change |number|)

theorem signed_zero (negative : Bool) : signed negative 0 = 0 := by
  cases negative <;> simp [signed]

theorem abs_signed (negative : Bool) {size : ℚ} (nonnegative : 0 ≤ size) :
    |signed negative size| = size := by
  cases negative
  · exact abs_of_nonneg nonnegative
  · exact (abs_neg size).trans (abs_of_nonneg nonnegative)

theorem signed_abs (number : ℚ) : signed (number < 0) |number| = number := by
  rcases lt_or_ge number 0 with negative | nonnegative
  · rw [signed, if_pos (decide_eq_true negative), abs_of_neg negative, neg_neg]
  · rw [signed, if_neg (by simpa using nonnegative), abs_of_nonneg nonnegative]

theorem signed_neg_iff (negative : Bool) {size : ℚ} (positive : 0 < size) :
    signed negative size < 0 ↔ negative = true := by
  cases negative
  · exact iff_of_false (not_lt.mpr positive.le) Bool.false_ne_true
  · exact iff_of_true (neg_lt_zero.mpr positive) rfl

theorem by_size_signed {change : ℚ → ℚ} (zero : change 0 = 0) (negative : Bool) {size : ℚ}
    (nonnegative : 0 ≤ size) :
    bySize change (signed negative size) = signed negative (change size) := by
  rw [bySize, abs_signed negative nonnegative]
  rcases nonnegative.eq_or_lt with rfl | positive
  · rw [zero, signed_zero, signed_zero]
  · rw [Bool.decide_congr (signed_neg_iff negative positive), Bool.decide_eq_true]

namespace Format

variable {format : Format}

/-- The nearest multiple of the last place of a size. -/
def roundedSize (format : Format) (size : ℚ) : ℚ :=
  let scaled := size / 2 ^ format.unit size
  divideToEven scaled.num.toNat scaled.den * 2 ^ format.unit size

/-- The multiple of the last place of a size that is reached by cutting off. -/
def truncatedSize (format : Format) (size : ℚ) : ℚ :=
  ⌊size / 2 ^ format.unit size⌋₊ * 2 ^ format.unit size

def rounded (format : Format) : ℚ → ℚ :=
  bySize format.roundedSize

def truncated (format : Format) : ℚ → ℚ :=
  bySize format.truncatedSize

/-- The least power of two that is too large for a format. -/
def limit (format : Format) : ℚ :=
  2 ^ (format.fractionBits + (format.lowest + (format.topField - 1 : ℕ)))

/-- Where a rounded number is, if too large ones are infinite. -/
def placed (format : Format) (number : ℚ) : WithBot (WithTop ℚ) :=
  if |format.rounded number| < format.limit then ((format.rounded number : ℚ) : WithTop ℚ)
  else if number < 0 then ⊥ else ((⊤ : WithTop ℚ) : WithBot (WithTop ℚ))

theorem rounded_size_zero (format : Format) : format.roundedSize 0 = 0 := by
  simp [roundedSize, divideToEven]

theorem truncated_size_zero (format : Format) : format.truncatedSize 0 = 0 := by
  simp [truncatedSize]

theorem exists_rounded_size (format : Format) {size : ℚ} (nonnegative : 0 ≤ size) :
    ∃ whole, RoundsTo (size / 2 ^ format.unit size) whole ∧
      format.roundedSize size = whole * 2 ^ format.unit size := by
  have scaled : 0 ≤ size / 2 ^ format.unit size := by positivity
  have rounds := divide_to_even_rounds (size / 2 ^ format.unit size).num.toNat
    (size / 2 ^ format.unit size).den_pos
  have numerator : (((size / 2 ^ format.unit size).num.toNat : ℕ) : ℚ) =
      (size / 2 ^ format.unit size).num := by
    exact_mod_cast Int.toNat_of_nonneg (Rat.num_nonneg.mpr scaled)
  rw [numerator, Rat.num_div_den] at rounds
  exact ⟨_, rounds, rfl⟩

theorem rounded_size_eq {size : ℚ} (nonnegative : 0 ≤ size) {whole : ℕ}
    (rounds : RoundsTo (size / 2 ^ format.unit size) whole) :
    format.roundedSize size = whole * 2 ^ format.unit size := by
  obtain ⟨_, own, rounded⟩ := format.exists_rounded_size nonnegative
  rw [rounded, rounds_unique own rounds]

/-! ## Numbers of the format -/

theorem unit_of_normal {whole : ℕ} {exponent : ℤ} (normal : format.Normal whole exponent)
    (positive : 0 < whole) : format.unit (whole * 2 ^ exponent) = exponent := by
  have size : (0 : ℚ) < whole * 2 ^ exponent := by positivity
  refine unit_eq normal.lowest_le size (fun other => ?_)
    (lt_of_near normal (format.near_self whole exponent))
  have implicit := normal.implicit other
  rw [pow_fraction_eq]
  gcongr

/-- A number of the format is rounded to itself. -/
theorem rounded_of_normal {whole : ℕ} {exponent : ℤ} (normal : format.Normal whole exponent)
    (negative : Bool) : format.rounded (signed negative (whole * 2 ^ exponent)) =
      signed negative (whole * 2 ^ exponent) := by
  rw [rounded, by_size_signed format.rounded_size_zero negative (by positivity)]
  congr 1
  rcases Nat.eq_zero_or_pos whole with rfl | positive
  · rw [Nat.cast_zero, zero_mul, rounded_size_zero]
  · have unit := unit_of_normal normal positive
    have place : (2 : ℚ) ^ exponent ≠ 0 := by positivity
    have self : RoundsTo (whole * 2 ^ exponent / 2 ^ format.unit (whole * 2 ^ exponent)) whole := by
      rw [unit, mul_div_cancel_right₀ _ place]
      exact rounds_self whole
    rw [rounded_size_eq (by positivity) self, unit]

/-- A significand and its place, with a carry beyond the places of the format taken in. -/
def carried (format : Format) (whole : ℕ) (exponent : ℤ) : ℕ × ℤ :=
  if whole < 2 * Nat.pow 2 format.fractionBits then (whole, exponent)
  else (Nat.pow 2 format.fractionBits, exponent + 1)

/-- Taking a carry in gives a form without redundant places of the same pattern and value. -/
theorem carried_normal {whole : ℕ} {exponent : ℤ} (lowest : format.lowest ≤ exponent)
    (small : whole ≤ 2 * Nat.pow 2 format.fractionBits)
    (implicit : exponent ≠ format.lowest → Nat.pow 2 format.fractionBits ≤ whole) :
    format.Normal (format.carried whole exponent).1 (format.carried whole exponent).2 ∧
      format.pattern (format.carried whole exponent).1 (format.carried whole exponent).2 =
        format.pattern whole exponent ∧
      ((format.carried whole exponent).1 : ℚ) * 2 ^ (format.carried whole exponent).2 =
        whole * 2 ^ exponent := by
  have places : 0 < Nat.pow 2 format.fractionBits := Nat.pow_pos two_pos
  rw [carried]
  rcases small.lt_or_eq with less | rfl
  · rw [if_pos less]
    exact ⟨⟨lowest, less, implicit⟩, rfl, rfl⟩
  · rw [if_neg (lt_irrefl _)]
    refine ⟨⟨by omega, by omega, fun _ => le_rfl⟩, ?_, ?_⟩
    · have next : (exponent + 1 - format.lowest).toNat = (exponent - format.lowest).toNat + 1 := by
        omega
      rw [pattern, pattern, next]
      ring
    · rw [zpow_add_one₀ two_ne_zero]
      push_cast
      ring

/-- The finite patterns are those of the numbers below the limit. -/
theorem finite_iff (top : 1 ≤ format.topField) {whole : ℕ} {exponent : ℤ}
    (normal : format.Normal whole exponent) :
    format.pattern whole exponent < format.infinity ↔
      (whole : ℚ) * 2 ^ exponent < format.limit := by
  have places : 0 < Nat.pow 2 format.fractionBits := Nat.pow_pos two_pos
  have first : format.Normal (Nat.pow 2 format.fractionBits)
      (format.lowest + (format.topField - 1 : ℕ)) := ⟨by omega, by omega, fun _ => le_rfl⟩
  have infinite := pattern_normal format top 0
  rw [Nat.add_zero, Nat.add_zero] at infinite
  rw [limit, pow_fraction_eq, ← pattern_lt_iff normal first, infinite, infinity]

theorem decode_infinite (format : Format) (negative : Bool) :
    format.decode (format.signWeight negative + format.infinity) = .infinite negative := by
  have fields : 0 < Nat.pow 2 format.exponentBits := Nat.pow_pos two_pos
  have small : format.topField < Nat.pow 2 format.exponentBits := by
    rw [topField]
    omega
  have decoded := decode_fields format negative small (Nat.pow_pos two_pos : 0 < _)
  rwa [if_pos rfl, if_pos rfl, Nat.add_zero] at decoded

/-- The nearest pattern stands for the rounded number. -/
theorem place_of_nearest (top : 1 ≤ format.topField) (negative : Bool) {num den : ℕ}
    (denPositive : 0 < den) :
    (format.decode (format.nearestSigned negative num den)).place =
      format.placed (signed negative (num / den)) := by
  have places : 0 < Nat.pow 2 format.fractionBits := Nat.pow_pos two_pos
  have size : (0 : ℚ) ≤ num / den := by positivity
  have rounded : format.rounded (signed negative (num / den)) =
      signed negative (format.roundedSize (num / den)) :=
    by_size_signed format.rounded_size_zero negative size
  have weight : format.nearestSigned negative num den =
      format.signWeight negative + format.nearest num den := rfl
  rw [placed, rounded, weight]
  rcases Nat.eq_zero_or_pos num with rfl | positive
  -- Zero has no logarithm to choose a last place by.
  · have zero : format.Normal 0 format.lowest := ⟨le_rfl, by omega, fun other => absurd rfl other⟩
    have finite : format.pattern 0 format.lowest < format.infinity := by
      rw [pattern_subnormal]
      exact Nat.mul_pos top places
    have decoded := decode_of_splits (⟨zero, finite, rfl⟩ : format.Splits _ negative 0 _)
    have limit : 0 < format.limit := by
      rw [Format.limit]
      positivity
    rw [pattern_subnormal] at decoded
    rw [nearest, if_pos rfl, decoded, Datum.place, Nat.cast_zero, zero_div, rounded_size_zero,
      zero_mul, signed_zero, abs_zero, if_pos limit]
  · obtain ⟨whole, rounds, nearest⟩ := format.nearest_rounds positive denPositive
    have ratio : (0 : ℚ) < num / den := by positivity
    obtain ⟨normal, pattern, value⟩ := carried_normal (format.lowest_le_unit (num / den))
      (significand_le rounds) (fun other => le_significand ratio
        (lt_of_le_of_ne (format.lowest_le_unit _) other.symm) rounds)
    rw [rounded_size_eq size rounds, nearest, ← pattern, ← value,
      abs_signed negative (by positivity)]
    -- The carry may be what makes the number too large.
    by_cases finite : format.pattern (format.carried whole (format.unit (num / den))).1
        (format.carried whole (format.unit (num / den))).2 < format.infinity
    · rw [if_pos ((finite_iff top normal).mp finite), min_eq_right finite.le,
        decode_of_splits ⟨normal, finite, rfl⟩, Datum.place]
    · rw [if_neg ((finite_iff top normal).not.mp finite), min_eq_left (not_lt.mp finite),
        decode_infinite, Datum.place]
      simp only [signed_neg_iff negative ratio]

/-- A number of the format is placed where it is. -/
theorem placed_of_normal (top : 1 ≤ format.topField) {whole : ℕ} {exponent : ℤ}
    (normal : format.Normal whole exponent)
    (finite : format.pattern whole exponent < format.infinity) (negative : Bool) :
    format.placed (signed negative (whole * 2 ^ exponent)) =
      ((signed negative (whole * 2 ^ exponent) : ℚ) : WithTop ℚ) := by
  rw [placed, rounded_of_normal normal, abs_signed negative (by positivity),
    if_pos ((finite_iff top normal).mp finite)]

end Format

/-! ## Doubles -/

theorem nearest_signed_lt (format : Format) (negative : Bool) (num den : ℕ) :
    format.nearestSigned negative num den < 2 * format.signBit := by
  have weight : format.signWeight negative ≤ format.signBit := by
    cases negative
    · exact Nat.zero_le _
    · exact le_rfl
  have nearest : format.nearest num den ≤ format.infinity := by
    rw [Format.nearest]
    split
    · exact Nat.zero_le _
    · exact Nat.min_le_left _ _
  have unsigned := format.infinity_lt
  have sum : format.nearestSigned negative num den =
      format.signWeight negative + format.nearest num den := rfl
  omega

/-- The double nearest to a number is placed where rounding places that number. -/
theorem place_of_nearest_double (negative : Bool) {num den : ℕ} (denPositive : 0 < den) :
    (datum (doubleOfBits (Format.double.nearestSigned negative num den))).place =
      Format.double.placed (signed negative (num / den)) := by
  have top : 1 ≤ Format.double.topField := by decide
  rw [← Format.place_of_nearest top negative denPositive]
  exact congrArg Datum.place (datum_of_bits (nearest_signed_lt _ negative num den))

theorem exists_ratio (mantissa : ℕ) (exponent : ℤ) : ∃ num den : ℕ, 0 < den ∧
    (num : ℚ) / den = mantissa * 2 ^ exponent ∧ ∀ (format : Format) (negative : Bool),
      format.nearestScaled negative mantissa exponent = format.nearestSigned negative num den := by
  rcases Int.le_total 0 exponent with nonnegative | nonpositive
  · refine ⟨mantissa * Nat.pow 2 exponent.toNat, 1, Nat.one_pos, ?_, fun format negative => ?_⟩
    · rw [Nat.cast_mul, nat_pow_two nonnegative, Nat.cast_one, div_one]
    · exact if_pos nonnegative
  · refine ⟨mantissa, Nat.pow 2 (-exponent).toNat, Nat.pow_pos two_pos, ?_,
      fun format negative => ?_⟩
    · rw [nat_pow_two (by omega), zpow_neg, div_inv_eq_mul]
    · rw [Format.nearestScaled]
      split
      · have none : exponent = 0 := by omega
        subst none
        exact congrArg (format.nearestSigned negative · 1) (Nat.mul_one mantissa)
      · rfl

/-- The double of a finite datum is placed where rounding places that number. -/
theorem place_of_double (negative : Bool) (mantissa : ℕ) (exponent : ℤ) :
    (datum (doubleOfDatum (.finite negative mantissa exponent))).place =
      Format.double.placed (signed negative (mantissa * 2 ^ exponent)) := by
  obtain ⟨num, den, denPositive, ratio, nearest⟩ := exists_ratio mantissa exponent
  rw [doubleOfDatum, Format.encode, nearest, place_of_nearest_double negative denPositive, ratio]

end Achievements.Ieee
