import Achievements.Proofs.Ieee.Rounding

/-!
# Sums of doubles

The arithmetic of doubles shifts a significand to its place, keeps two bits of what is shifted out
and rounds by these. The two bits say exactly on which side of the nearest multiples of the last
place the number lies, so what is computed is the double that `Format.nearest` chooses. A sum or a
difference of finite doubles is therefore placed where rounding places the exact one.
-/

set_option autoImplicit false

namespace Achievements.Ieee

open Float.Model (UnpackedFloat totalExponent)
open Float.Model.UnpackedFloat (Accuracy ExtendedMantissa Sign)

/-! ## Shifted significands -/

/-- What a significand with its two bits stands for, in units of its last place. -/
def Represents (extended : ExtendedMantissa) (number : ℚ) : Prop :=
  let known : ℚ := extended.mantissa + if extended.roundBit then 1 / 2 else 0
  if extended.stickyBit then known < number ∧ number < known + 1 / 2 else number = known

theorem represents_exact (mantissa : ℕ) :
    Represents (ExtendedMantissa.ofMantissaAndAccuracy mantissa .exact) mantissa := by
  simp [Represents, ExtendedMantissa.ofMantissaAndAccuracy]

theorem represents_shift_one {extended : ExtendedMantissa} {number : ℚ}
    (represents : Represents extended number) :
    Represents extended.shiftRightOne (number / 2) := by
  obtain ⟨mantissa, roundBit, stickyBit⟩ := extended
  have parts : (mantissa : ℚ) = 2 * (mantissa / 2 : ℕ) + (mantissa % 2 : ℕ) := by
    exact_mod_cast (Nat.div_add_mod mantissa 2).symm
  rcases Nat.mod_two_eq_zero_or_one mantissa with last | last <;>
    rw [last] at parts <;>
    cases roundBit <;> cases stickyBit <;>
    simp [Represents, ExtendedMantissa.shiftRightOne, last] at represents parts ⊢ <;>
    first
      | linarith
      | exact ⟨by linarith, by linarith⟩

theorem represents_shift {extended : ExtendedMantissa} {number : ℚ}
    (represents : Represents extended number) (count : ℕ) :
    Represents (extended >>> count) (number / 2 ^ count) := by
  induction count with
  | zero =>
      rw [pow_zero, div_one]
      exact represents
  | succ count hypothesis =>
      rw [pow_succ, ← div_div]
      exact represents_shift_one hypothesis

/-- The two bits are enough to round. -/
theorem rounds_of_represents {extended : ExtendedMantissa} {number : ℚ}
    (represents : Represents extended number) : RoundsTo number extended.roundedMantissa := by
  obtain ⟨mantissa, roundBit, stickyBit⟩ := extended
  cases roundBit <;> cases stickyBit <;>
    simp only [Represents, if_true, Bool.false_eq_true, if_false, add_zero] at represents <;>
    simp only [ExtendedMantissa.roundedMantissa, ExtendedMantissa.accuracy,
      UnpackedFloat.Accuracy.roundToNearestEven]
  · subst represents
    exact rounds_self mantissa
  · exact ⟨by linarith, by linarith, fun _ => ⟨by linarith, by linarith⟩⟩
  · rcases Nat.mod_two_eq_zero_or_one mantissa with even | odd
    · rw [even, Nat.add_zero]
      exact ⟨by linarith, by linarith, fun odd => by omega⟩
    · rw [odd]
      refine ⟨?_, ?_, fun odd => by omega⟩ <;> push_cast <;> linarith
  · refine ⟨?_, ?_, fun _ => ⟨?_, ?_⟩⟩ <;> push_cast <;> linarith

theorem log_of_scaled {mantissa : ℕ} (positive : 0 < mantissa) (exponent : ℤ) :
    Int.log 2 ((mantissa : ℚ) * 2 ^ exponent) = mantissa.log2 + exponent := by
  have low : (2 : ℚ) ^ (mantissa.log2 : ℤ) ≤ mantissa := by
    exact_mod_cast Nat.log2_self_le positive.ne'
  have high : (mantissa : ℚ) < (2 : ℚ) ^ ((mantissa.log2 : ℤ) + 1) := by
    exact_mod_cast Nat.lt_log2_self
  apply log_eq (by positivity)
  · rw [zpow_add₀ two_ne_zero]
    gcongr
  · rw [add_right_comm, zpow_add₀ two_ne_zero]
    gcongr

theorem target_exponent (total : ℤ) :
    Float.Model.Format.binary64.targetExponent total = max (total - 53) (-1074) := rfl

theorem double_unit (size : ℚ) : Format.double.unit size = max (-1074) (Int.log 2 size - 52) := rfl

theorem target_exponent_eq {mantissa : ℕ} (positive : 0 < mantissa) (exponent : ℤ) :
    Float.Model.Format.binary64.targetExponent (totalExponent mantissa exponent) =
      Format.double.unit (mantissa * 2 ^ exponent) := by
  rw [target_exponent, double_unit, log_of_scaled positive, totalExponent]
  omega

theorem lift_mantissa (mantissa : ℕ) {exponent place : ℤ} (below : place ≤ exponent) :
    ((mantissa <<< (exponent - place).toNat : ℕ) : ℚ) * 2 ^ place = mantissa * 2 ^ exponent := by
  have gap : exponent = (exponent - place).toNat + place := by omega
  rw [Nat.shiftLeft_eq, Nat.cast_mul, Nat.cast_pow, Nat.cast_two, mul_assoc, ← zpow_natCast,
    ← zpow_add₀ two_ne_zero, ← gap]

theorem shift_to_exponent_rounds {mantissa : ℕ} {accuracy : Accuracy} {part : ℚ}
    (represents : Represents (.ofMantissaAndAccuracy mantissa accuracy) part) {exponent place : ℤ}
    (above : exponent ≤ place) :
    (UnpackedFloat.shiftToExponent mantissa exponent accuracy place).2 = place ∧
      RoundsTo (part * 2 ^ exponent / 2 ^ place)
        (UnpackedFloat.shiftToExponent mantissa exponent accuracy place).1.roundedMantissa := by
  have gap : exponent + (place - exponent).toNat = place := by omega
  refine ⟨gap, rounds_of_represents ?_⟩
  have shifted := represents_shift represents (place - exponent).toNat
  have scaled : part * 2 ^ exponent / 2 ^ place = part / 2 ^ (place - exponent).toNat := by
    have wide : (2 : ℚ) ^ place = 2 ^ exponent * 2 ^ (place - exponent).toNat := by
      rw [← zpow_natCast, ← zpow_add₀ two_ne_zero, gap]
    rw [wide, mul_comm part, mul_div_mul_left _ _ (by positivity)]
  rw [scaled]
  exact shifted

/-- The second shift only takes a carry in. -/
theorem shift_carry {whole : ℕ} {place : ℤ} (lowest : Format.double.lowest ≤ place)
    (small : whole ≤ 2 * Nat.pow 2 Format.double.fractionBits) :
    UnpackedFloat.shiftToTargetExponent .binary64 whole place .exact =
      (⟨(Format.double.carried whole place).1, false, false⟩,
        (Format.double.carried whole place).2) := by
  have least : -1074 ≤ place := lowest
  rw [Format.carried]
  rcases small.lt_or_eq with less | rfl
  · have bits : whole.log2 ≤ 52 := by
      rcases Nat.eq_zero_or_pos whole with rfl | positive
      · decide
      · exact Nat.le_of_lt_succ ((Nat.log2_lt positive.ne').mpr less)
    have target :
        Float.Model.Format.binary64.targetExponent (totalExponent whole place) ≤ place := by
      change max ((whole.log2 : ℤ) + 1 + place - 53) (-1074) ≤ place
      omega
    have stay := Int.toNat_of_nonpos (Int.sub_nonpos_of_le target)
    rw [if_pos less, UnpackedFloat.shiftToTargetExponent, UnpackedFloat.shiftToExponent]
    simp only [stay]
    exact congrArg _ (Int.add_zero place)
  · have target : Float.Model.Format.binary64.targetExponent
        (totalExponent (2 * Nat.pow 2 Format.double.fractionBits) place) = place + 1 := by
      have bits : (2 * Nat.pow 2 Format.double.fractionBits).log2 = 53 := by decide
      rw [totalExponent, bits]
      change max (((53 : ℕ) : ℤ) + 1 + place - 53) (-1074) = place + 1
      omega
    have one : (place + 1 - place).toNat = 1 := by omega
    rw [if_neg (lt_irrefl _), UnpackedFloat.shiftToTargetExponent, target,
      UnpackedFloat.shiftToExponent]
    simp only [one]
    rfl

/-! ## Packing -/

/-- The double of an unpacked result. -/
def packed (value : UnpackedFloat) : Float :=
  .ofModel (.pack value)

theorem packed_eq (value : UnpackedFloat) :
    packed value = doubleOfBits (UnpackedFloat.pack .binary64 value).toNat := by
  have kept := Float.ofBits_toBits (packed value)
  rw [← UInt64.ofNat_toNat (x := (packed value).toBits)] at kept
  exact kept.symm

theorem components_eq (negative : Bool) (field : BitVec 11) (fraction : BitVec 52) :
    (UnpackedFloat.packComponents .binary64 (signOf negative) field fraction).toNat =
      Format.double.signWeight negative + (field.toNat * Nat.pow 2 52 + fraction.toNat) := by
  have sign : (signOf negative).toBitVec.toNat = negative.toNat := by cases negative <;> rfl
  have weight : Format.double.signWeight negative = negative.toNat * 2 ^ 11 * 2 ^ 52 := by
    cases negative <;> rfl
  rw [UnpackedFloat.packComponents, BitVec.toNat_append, BitVec.toNat_append, sign, weight,
    ← Nat.shiftLeft_add_eq_or_of_lt field.isLt, ← Nat.shiftLeft_add_eq_or_of_lt fraction.isLt,
    Nat.shiftLeft_eq, Nat.shiftLeft_eq, Nat.add_mul, Nat.add_assoc]

/-- A significand that is not zero is packed as an infinity if its exponent is too large, without its
leading bit if it has one, and as it is otherwise. -/
theorem pack_of_positive (negative : Bool) {whole : ℕ} (place : ℤ) (positive : 0 < whole) :
    UnpackedFloat.pack .binary64 (unpacked (.finite negative whole place)) =
      if 2 ^ 11 ≤ (place + ((1023 : ℕ) : ℤ) + ((52 : ℕ) : ℤ)).toNat + 1 then
        UnpackedFloat.packComponents .binary64 (signOf negative) (-1#11) 0
      else if whole.log2 + 1 = 53 then
        UnpackedFloat.packComponents .binary64 (signOf negative)
          (BitVec.ofNat _ (place + ((1023 : ℕ) : ℤ) + ((52 : ℕ) : ℤ)).toNat) (BitVec.ofNat _ whole)
      else UnpackedFloat.packComponents .binary64 (signOf negative) 0#11 (BitVec.ofNat _ whole) := by
  rw [unpacked, dif_pos positive]
  rfl

theorem leading_bit_iff {whole : ℕ} (positive : 0 < whole) (small : whole < 2 * 2 ^ 52) :
    whole.log2 + 1 = 53 ↔ 2 ^ 52 ≤ whole := by
  rw [← Nat.le_log2 positive.ne']
  have less : whole.log2 < 53 := (Nat.log2_lt positive.ne').mpr (by omega)
  omega

theorem pack_eq (negative : Bool) {whole : ℕ} {place : ℤ}
    (normal : Format.double.Normal whole place) :
    (UnpackedFloat.pack .binary64 (unpacked (.finite negative whole place))).toNat =
      Format.double.signWeight negative +
        min Format.double.infinity (Format.double.pattern whole place) := by
  have lowest : -1074 ≤ place := normal.lowest_le
  have small : whole < 2 * 2 ^ 52 := normal.whole_lt
  have implicit : place ≠ -1074 → 2 ^ 52 ≤ whole := normal.implicit
  have infinity : Format.double.infinity = 2047 * 2 ^ 52 := rfl
  have pattern : Format.double.pattern whole place = (place - -1074).toNat * 2 ^ 52 + whole := rfl
  rw [infinity, pattern]
  by_cases positive : 0 < whole
  · have biased :
        (place + ((1023 : ℕ) : ℤ) + ((52 : ℕ) : ℤ)).toNat = (place - -1074).toNat + 1 := by
      omega
    rw [pack_of_positive negative place positive, biased]
    simp only [leading_bit_iff positive small]
    split
    · rename_i large
      have top : (-1#11).toNat = 2047 := by decide
      rw [components_eq, top]
      have above : 2047 * 2 ^ 52 ≤ (place - -1074).toNat * 2 ^ 52 + whole := by omega
      rw [min_eq_left above]
      rfl
    · rename_i fits
      split
      · rename_i full
        rw [components_eq, BitVec.toNat_ofNat, BitVec.toNat_ofNat, Nat.mod_eq_of_lt (by omega)]
        change _ + (((place - -1074).toNat + 1) * 2 ^ 52 + whole % 2 ^ 52) = _
        omega
      · rename_i notFull
        have least : place = -1074 := by
          by_contra other
          exact notFull (implicit other)
        have kept : (BitVec.ofNat 52 whole).toNat = whole := by
          rw [BitVec.toNat_ofNat, Nat.mod_eq_of_lt (not_le.mp notFull)]
        rw [components_eq, kept, least, BitVec.toNat_zero, Nat.zero_mul, sub_self, Int.toNat_zero,
          Nat.zero_mul, Nat.zero_add, min_eq_right (by omega)]
  · have zero : whole = 0 := by omega
    have least : place = -1074 := by
      by_contra other
      have := implicit other
      omega
    rw [unpacked, dif_neg positive, zero, least]
    cases negative <;> decide

/-! ## Rounding a significand -/

theorem decrease_exponent_eq (mantissa : ℕ) (exponent place : ℤ) :
    ∃ lifted start, UnpackedFloat.decreaseExponent mantissa exponent place = (lifted, start) ∧
      start ≤ place ∧ (lifted : ℚ) * 2 ^ start = mantissa * 2 ^ exponent := by
  refine ⟨_, _, rfl, by omega, ?_⟩
  have start : exponent - (exponent - place).toNat = min exponent place := by omega
  rw [start]
  rcases Int.le_total place exponent with above | already
  · rw [min_eq_right above, lift_mantissa mantissa above]
  · rw [min_eq_left already, Int.toNat_of_nonpos (by omega), Nat.shiftLeft_zero]

section Rounding

variable (negative : Bool) {mantissa : ℕ} {exponent : ℤ} {accuracy : Accuracy} {part size : ℚ}
  (positive : 0 < size) (represents : Represents (.ofMantissaAndAccuracy mantissa accuracy) part)
  (value : part * 2 ^ exponent = size)
  (target : Float.Model.Format.binary64.targetExponent (totalExponent mantissa exponent) =
    Format.double.unit size)
  (below : exponent ≤ Format.double.unit size)

include positive represents value target below

/-- Rounding brings the significand to the last place of its size, rounds it there and takes a carry
in. -/
theorem exists_rounded : ∃ whole kept place,
    RoundsTo (size / 2 ^ Format.double.unit size) whole ∧
      Format.double.Normal kept place ∧
      Format.double.pattern kept place =
        Format.double.pattern whole (Format.double.unit size) ∧
      UnpackedFloat.roundWithAccuracy .binary64 (signOf negative) mantissa exponent accuracy =
        unpacked (.finite negative kept place) := by
  obtain ⟨reached, rounds⟩ := shift_to_exponent_rounds represents below
  rw [value] at rounds
  have lowest := Format.double.lowest_le_unit size
  have carry := shift_carry lowest (Format.significand_le rounds)
  obtain ⟨normal, pattern, -⟩ := Format.carried_normal lowest (Format.significand_le rounds)
    (fun other => Format.le_significand positive (lt_of_le_of_ne lowest other.symm) rounds)
  refine ⟨_, _, _, rounds, normal, pattern, ?_⟩
  have first : UnpackedFloat.shiftToTargetExponent .binary64 mantissa exponent accuracy =
      UnpackedFloat.shiftToExponent mantissa exponent accuracy (Format.double.unit size) := by
    rw [UnpackedFloat.shiftToTargetExponent, target]
  simp only [UnpackedFloat.roundWithAccuracy, first, reached, carry]
  rw [unpacked]
  split
  · rename_i none
    rw [dif_neg (by omega)]
  · rename_i some
    rw [dif_pos (Nat.pos_of_ne_zero some)]

/-- A rounded significand is placed where rounding places the number that it stands for. -/
theorem place_of_rounded :
    (datum (packed (UnpackedFloat.roundWithAccuracy .binary64 (signOf negative) mantissa exponent
      accuracy))).place = Format.double.placed (signed negative size) := by
  have numerator : ((size.num.toNat : ℕ) : ℚ) = size.num := by
    exact_mod_cast Int.toNat_of_nonneg (Rat.num_nonneg.mpr positive.le)
  have ratio : (size.num.toNat : ℚ) / size.den = size := by rw [numerator, Rat.num_div_den]
  have numPositive : 0 < size.num.toNat := by
    have := Rat.num_pos.mpr positive
    omega
  obtain ⟨expected, roundsExpected, pattern⟩ :=
    Format.double.nearest_rounds numPositive size.den_pos
  obtain ⟨whole, kept, place, rounds, normal, samePattern, result⟩ :=
    exists_rounded negative positive represents value target below
  rw [ratio] at roundsExpected pattern
  rw [rounds_unique roundsExpected rounds, ← samePattern] at pattern
  have nearest := @place_of_nearest_double negative size.num.toNat size.den size.den_pos
  rw [ratio, Format.nearestSigned, pattern] at nearest
  rw [result, packed_eq, pack_eq negative normal]
  exact nearest

end Rounding

theorem place_of_round (negative : Bool) {mantissa : ℕ} (positive : 0 < mantissa) (exponent : ℤ) :
    (datum (packed (UnpackedFloat.round .binary64 (signOf negative) mantissa exponent))).place =
      Format.double.placed (signed negative (mantissa * 2 ^ exponent)) := by
  have size : (0 : ℚ) < mantissa * 2 ^ exponent := by positivity
  have target := target_exponent_eq positive exponent
  obtain ⟨lifted, start, decreased, below, same⟩ := decrease_exponent_eq mantissa exponent
    (Format.double.unit (mantissa * 2 ^ exponent))
  have liftedPositive : 0 < lifted := by
    apply Nat.pos_of_ne_zero
    rintro rfl
    rw [Nat.cast_zero, zero_mul] at same
    exact size.ne same
  -- Lifting keeps the number, so the lifted significand has the same last place.
  have again := target_exponent_eq liftedPositive start
  rw [same] at again
  rw [UnpackedFloat.round, target, decreased]
  exact place_of_rounded negative size (represents_exact lifted) same again below

/-! ## Sums and differences -/

/-- A finite double whose sign and significand are known. -/
theorem place_of_packed (negative : Bool) {whole : ℕ} {place : ℤ}
    (normal : Format.double.Normal whole place)
    (finite : Format.double.pattern whole place < Format.double.infinity) :
    (datum (packed (unpacked (.finite negative whole place)))).place =
      Format.double.placed (signed negative (whole * 2 ^ place)) := by
  rw [packed_eq, pack_eq negative normal, min_eq_right finite.le,
    datum_of_splits ⟨normal, finite, rfl⟩, Datum.place,
    Format.placed_of_normal (by decide) normal finite]

theorem place_of_zero (negative : Bool) :
    (datum (packed (.zero (signOf negative)))).place = Format.double.placed 0 := by
  have zero : Format.double.Normal 0 (-1074) := ⟨le_rfl, by decide, fun other => absurd rfl other⟩
  have place := place_of_packed negative zero (by decide)
  rwa [Nat.cast_zero, zero_mul, signed_zero] at place

theorem place_of_normalize (mantissa exponent : ℤ) :
    (datum (packed (UnpackedFloat.normalize .binary64 mantissa exponent .positive))).place =
      Format.double.placed (mantissa * 2 ^ exponent) := by
  rw [UnpackedFloat.normalize]
  rcases lt_trichotomy mantissa 0 with negative | rfl | positive
  · have size : ((-mantissa).toNat : ℚ) = -mantissa := by
      exact_mod_cast Int.toNat_of_nonneg (by omega : 0 ≤ -mantissa)
    have place := place_of_round true (by omega : 0 < (-mantissa).toNat) exponent
    rw [size, neg_mul, signed, if_pos rfl, neg_neg] at place
    rw [compare_lt_iff_lt.mpr negative]
    exact place
  · rw [Int.cast_zero, zero_mul]
    exact place_of_zero false
  · have size : (mantissa.toNat : ℚ) = mantissa := by
      exact_mod_cast Int.toNat_of_nonneg positive.le
    have place := place_of_round false (by omega : 0 < mantissa.toNat) exponent
    rw [size, signed, if_neg Bool.false_ne_true] at place
    rw [compare_gt_iff_gt.mpr positive]
    exact place

theorem apply_sign (negative : Bool) (size : ℕ) :
    (((signOf negative).apply size : ℤ) : ℚ) = signed negative size := by
  cases negative <;> simp [signOf, Sign.apply, signed]

theorem signed_mul (negative : Bool) (size factor : ℚ) :
    signed negative (size * factor) = signed negative size * factor := by
  cases negative <;> simp [signed]

theorem place_of_sum (left right : Bool) {a b : ℕ} {c d : ℤ}
    (first : Format.double.Normal a c)
    (firstFinite : Format.double.pattern a c < Format.double.infinity)
    (second : Format.double.Normal b d)
    (secondFinite : Format.double.pattern b d < Format.double.infinity) :
    (datum (packed (UnpackedFloat.add .binary64 (unpacked (.finite left a c))
      (unpacked (.finite right b d))))).place =
        Format.double.placed (signed left (a * 2 ^ c) + signed right (b * 2 ^ d)) := by
  have firstPlace := place_of_packed left first firstFinite
  have secondPlace := place_of_packed right second secondFinite
  rcases Nat.eq_zero_or_pos a with rfl | aPos <;> rcases Nat.eq_zero_or_pos b with rfl | bPos
  -- A zero is dropped from a sum, and the other number is not rounded again.
  · rw [Nat.cast_zero, zero_mul, zero_mul, signed_zero, signed_zero, add_zero]
    cases left <;> cases right
    · exact place_of_zero false
    · exact place_of_zero false
    · exact place_of_zero false
    · exact place_of_zero true
  · rw [Nat.cast_zero, zero_mul, signed_zero, zero_add, ← secondPlace]
    simp only [unpacked, bPos, dif_pos, lt_irrefl, dif_neg, not_false_eq_true]
    rfl
  · rw [Nat.cast_zero, zero_mul, signed_zero, add_zero, ← firstPlace]
    simp only [unpacked, aPos, dif_pos, lt_irrefl, dif_neg, not_false_eq_true]
    rfl
  · have place := place_of_normalize
      ((signOf left).apply (a <<< (c - min c d).toNat : ℕ) +
        (signOf right).apply (b <<< (d - min c d).toNat : ℕ)) (min c d)
    rw [Int.cast_add, apply_sign, apply_sign, add_mul, ← signed_mul, ← signed_mul,
      lift_mantissa a (min_le_left c d), lift_mantissa b (min_le_right c d)] at place
    simp only [unpacked, aPos, bPos, dif_pos]
    exact place

/-- A difference is the sum with the number of the other sign. -/
theorem sub_eq_add (left : UnpackedFloat) (right : Bool) (whole : ℕ) (place : ℤ) :
    left.sub .binary64 (unpacked (.finite right whole place)) =
      left.add .binary64 (unpacked (.finite (!right) whole place)) := by
  have opposite : -signOf right = signOf (!right) := by cases right <;> rfl
  have apply_opposite (size : ℤ) :
      (signOf (!right)).apply size = -(signOf right).apply size := by
    cases right <;> simp [signOf, Sign.apply]
  rcases Nat.eq_zero_or_pos whole with rfl | positive
  · cases left with
    | zero sign =>
        simp only [unpacked, lt_irrefl, dif_neg, not_false_eq_true]
        exact congrArg (fun other : Sign => if sign == other then UnpackedFloat.zero sign
          else UnpackedFloat.zero .positive) opposite
    | _ => simp [unpacked, UnpackedFloat.sub, UnpackedFloat.add]
  · cases left <;> simp [unpacked, positive, UnpackedFloat.sub, UnpackedFloat.add, opposite,
      apply_opposite, sub_eq_add_neg]

section

variable {left right : Float}

/-- The sum of finite doubles is placed where rounding places the exact sum. -/
theorem place_of_add (leftFinite : isFinite left = true) (rightFinite : isFinite right = true) :
    (datum (left + right)).place = Format.double.placed (worth left + worth right) := by
  obtain ⟨_, _, _, first⟩ := Json.number_of_finite leftFinite
  obtain ⟨_, _, _, second⟩ := Json.number_of_finite rightFinite
  have sum : left + right =
      packed (UnpackedFloat.add .binary64 left.toModel.unpack right.toModel.unpack) := rfl
  rw [sum, unpack_eq, unpack_eq, first, second, worth_of_number first, worth_of_number second]
  exact place_of_sum _ _ (splits_of_double first).normal (splits_of_double first).finite
    (splits_of_double second).normal (splits_of_double second).finite

/-- The difference of finite doubles is placed where rounding places the exact difference. -/
theorem place_of_sub (leftFinite : isFinite left = true) (rightFinite : isFinite right = true) :
    (datum (left - right)).place = Format.double.placed (worth left - worth right) := by
  obtain ⟨_, _, _, first⟩ := Json.number_of_finite leftFinite
  obtain ⟨negative, whole, place, second⟩ := Json.number_of_finite rightFinite
  have difference : left - right =
      packed (UnpackedFloat.sub .binary64 left.toModel.unpack right.toModel.unpack) := rfl
  have opposite :
      -signed negative (whole * 2 ^ place) = signed (!negative) (whole * 2 ^ place) := by
    cases negative <;> simp [signed]
  rw [difference, unpack_eq, unpack_eq, first, second, worth_of_number first,
    worth_of_number second, sub_eq_add, sub_eq_add_neg, opposite]
  exact place_of_sum _ _ (splits_of_double first).normal (splits_of_double first).finite
    (splits_of_double second).normal (splits_of_double second).finite

end

/-! ## Steps of one -/

theorem abs_rounded (format : Format) (number : ℚ) :
    |format.rounded number| = format.roundedSize |number| := by
  obtain ⟨whole, _, rounded⟩ := format.exists_rounded_size (abs_nonneg number)
  rw [Format.rounded, bySize, abs_signed _ (by rw [rounded]; positivity)]

theorem double_limit_eq : Format.double.limit = 2 ^ 53 * 2 ^ (971 : ℤ) := by
  have places : (Format.double.fractionBits : ℤ) +
      (Format.double.lowest + (Format.double.topField - 1 : ℕ)) = (53 : ℕ) + 971 := by decide
  rw [Format.limit, places, zpow_add₀ two_ne_zero, zpow_natCast]

/-- What is not half a place beyond the largest double is not rounded to an infinity. -/
theorem rounded_size_lt_limit {size : ℚ} (positive : 0 < size)
    (below : size < (2 ^ 53 - 1 / 2) * 2 ^ (971 : ℤ)) :
    Format.double.roundedSize size < Format.double.limit := by
  obtain ⟨whole, rounds, rounded⟩ := Format.double.exists_rounded_size positive.le
  have significand : (whole : ℚ) ≤ 2 ^ 53 := by exact_mod_cast Format.significand_le rounds
  rw [rounded, double_limit_eq]
  -- Only sizes whose last place is that of the largest double can be rounded up to the limit.
  rcases lt_trichotomy (Format.double.unit size) 971 with finer | same | coarser
  · have place : (2 : ℚ) ^ Format.double.unit size < 2 ^ (971 : ℤ) :=
      zpow_lt_zpow_right₀ one_lt_two finer
    calc (whole : ℚ) * 2 ^ Format.double.unit size ≤ 2 ^ 53 * 2 ^ Format.double.unit size := by
          gcongr
      _ < 2 ^ 53 * 2 ^ (971 : ℤ) := by gcongr
  · have above := rounds.above
    rw [same, le_div_iff₀ (by positivity)] at above
    have half : ((whole : ℚ) - 1 / 2) < 2 ^ 53 - 1 / 2 :=
      lt_of_mul_lt_mul_right (above.trans_lt below) (by positivity)
    rw [same]
    exact mul_lt_mul_of_pos_right (by linarith only [half]) (by positivity)
  · exfalso
    have above := Format.le_of_unit positive
      (lt_trans (by decide : Format.double.lowest < 971) coarser)
    have place : (2 : ℚ) ^ ((971 : ℤ) + 1) ≤ 2 ^ Format.double.unit size :=
      zpow_le_zpow_right₀ one_le_two coarser
    have wide : (2 : ℚ) ^ (Format.double.fractionBits : ℤ) = 2 ^ 52 := by norm_cast
    rw [le_div_iff₀ (by positivity), wide] at above
    have reached : (2 : ℚ) ^ 52 * 2 ^ ((971 : ℤ) + 1) ≤ size :=
      le_trans (by gcongr) above
    rw [zpow_add_one₀ two_ne_zero] at reached
    have unit : (0 : ℚ) < 2 ^ (971 : ℤ) := by positivity
    generalize (2 : ℚ) ^ (971 : ℤ) = last at below reached unit
    linarith only [below, reached, unit]

theorem size_le_of_finite {value : Float} (finite : isFinite value = true) :
    |worth value| ≤ (2 ^ 53 - 1) * 2 ^ (971 : ℤ) := by
  obtain ⟨negative, whole, exponent, number⟩ := Json.number_of_finite finite
  have splits := splits_of_double number
  have top := Json.pattern_near_top 1 (by simp)
  have below := splits.finite
  have largest : ((2 ^ 53 - 1 : ℕ) : ℚ) = 2 ^ 53 - 1 := by norm_num
  rw [worth_of_number number, abs_signed negative (by positivity), ← largest]
  exact Format.value_le_of_pattern_le splits.normal (Json.normal_near_top 1 (by simp)) (by omega)

/-- A number that is placed by rounding is finite unless it is beyond the largest double by more
than one. -/
theorem finite_of_placed {value : Float} {number : ℚ}
    (place : (datum value).place = Format.double.placed number)
    (small : |number| ≤ (2 ^ 53 - 1) * 2 ^ (971 : ℤ) + 1) :
    isFinite value = true ∧ worth value = Format.double.rounded number := by
  have finite : |Format.double.rounded number| < Format.double.limit := by
    rw [abs_rounded]
    rcases (abs_nonneg number).eq_or_lt with zero | positive
    · rw [← zero, Format.rounded_size_zero, double_limit_eq]
      positivity
    · refine rounded_size_lt_limit positive (small.trans_lt ?_)
      have wide : (2 : ℚ) ^ (2 : ℤ) ≤ 2 ^ (971 : ℤ) := zpow_le_zpow_right₀ one_le_two (by decide)
      have four : (2 : ℚ) ^ (2 : ℤ) = 4 := by norm_num
      rw [four] at wide
      generalize (2 : ℚ) ^ (971 : ℤ) = last at wide
      linarith only [wide]
  rw [Format.placed, if_pos finite] at place
  exact finite_of_place place

theorem datum_of_one : datum 1 = .finite false (2 ^ 52) (-52) := by
  decide

theorem finite_of_one : isFinite 1 = true ∧ worth 1 = 1 := by
  refine ⟨Json.finite_of_number datum_of_one, ?_⟩
  rw [worth_of_number datum_of_one, signed, if_neg Bool.false_ne_true]
  norm_num

section

variable {value : Float} (finite : isFinite value = true)

include finite

/-- One more than a finite double, rounded. -/
theorem number_of_succ :
    isFinite (value + 1) = true ∧ worth (value + 1) = Format.double.rounded (worth value + 1) := by
  have place := place_of_add finite finite_of_one.1
  rw [finite_of_one.2] at place
  refine finite_of_placed place ?_
  calc |worth value + 1| ≤ |worth value| + |1| := abs_add_le _ _
    _ ≤ (2 ^ 53 - 1) * 2 ^ (971 : ℤ) + 1 := by
      rw [abs_one]
      exact add_le_add (size_le_of_finite finite) le_rfl

/-- One less than a finite double, rounded. -/
theorem number_of_pred :
    isFinite (value - 1) = true ∧ worth (value - 1) = Format.double.rounded (worth value - 1) := by
  have place := place_of_sub finite finite_of_one.1
  rw [finite_of_one.2] at place
  refine finite_of_placed place ?_
  calc |worth value - 1| ≤ |worth value| + |1| := abs_sub _ _
    _ ≤ (2 ^ 53 - 1) * 2 ^ (971 : ℤ) + 1 := by
      rw [abs_one]
      exact add_le_add (size_le_of_finite finite) le_rfl

end

end Achievements.Ieee
