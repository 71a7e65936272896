import Mathlib
import Achievements.Ieee.Convert
import Achievements.Proofs.Ieee.Nearest

/-!
# Patterns of finite numbers

The pattern of a finite number determines it and is determined by it. For doubles this goes through
the type `Float` itself, which keeps one pattern for each value and so has no other pattern for a finite
number either.
-/

set_option autoImplicit false

namespace Achievements.Ieee

namespace Format

variable {format : Format}

/-- The weight of a minus sign. -/
def signWeight (format : Format) (negative : Bool) : ℕ :=
  if negative then format.signBit else 0

theorem sign_bit_eq (format : Format) :
    format.signBit = Nat.pow 2 format.exponentBits * Nat.pow 2 format.fractionBits := by
  rw [signBit, Nat.mul_comm]
  exact Nat.pow_add 2 _ _

theorem exists_fields (format : Format) {bits : ℕ} (small : bits < 2 * format.signBit) :
    ∃ negative field fraction, field < Nat.pow 2 format.exponentBits ∧
      fraction < Nat.pow 2 format.fractionBits ∧
      bits = format.signWeight negative + (field * Nat.pow 2 format.fractionBits + fraction) := by
  have places : 0 < Nat.pow 2 format.fractionBits := Nat.pow_pos two_pos
  have fields : 0 < Nat.pow 2 format.exponentBits := Nat.pow_pos two_pos
  have signPos : 0 < format.signBit := Nat.pow_pos two_pos
  refine ⟨decide (format.signBit ≤ bits), bits % format.signBit / Nat.pow 2 format.fractionBits,
    bits % Nat.pow 2 format.fractionBits, ?_, Nat.mod_lt _ places, ?_⟩
  · rw [Nat.div_lt_iff_lt_mul places, ← sign_bit_eq]
    exact Nat.mod_lt _ signPos
  · have sameRest : bits % Nat.pow 2 format.fractionBits =
        bits % format.signBit % Nat.pow 2 format.fractionBits := by
      rw [sign_bit_eq, Nat.mod_mul_left_mod]
    rw [sameRest, Nat.div_add_mod', signWeight]
    by_cases minus : format.signBit ≤ bits
    · have rest : bits % format.signBit = bits - format.signBit := by
        rw [Nat.mod_eq_sub_mod minus, Nat.mod_eq_of_lt (by omega)]
      rw [if_pos (decide_eq_true minus), rest]
      omega
    · rw [if_neg (by simpa using minus), Nat.mod_eq_of_lt (by omega), Nat.zero_add]

theorem decode_fields (format : Format) (negative : Bool) {field fraction : ℕ}
    (fieldSmall : field < Nat.pow 2 format.exponentBits)
    (fractionSmall : fraction < Nat.pow 2 format.fractionBits) :
    format.decode
        (format.signWeight negative + (field * Nat.pow 2 format.fractionBits + fraction)) =
      if field = format.topField then
        if fraction = 0 then .infinite negative else .nan
      else if field = 0 then .finite negative fraction format.lowest
      else .finite negative (Nat.pow 2 format.fractionBits + fraction)
        (format.lowest + (field - 1 : ℕ)) := by
  have places : 0 < Nat.pow 2 format.fractionBits := Nat.pow_pos two_pos
  have signPos : 0 < format.signBit := Nat.pow_pos two_pos
  have unsigned : field * Nat.pow 2 format.fractionBits + fraction < format.signBit := by
    rw [sign_bit_eq]
    calc field * Nat.pow 2 format.fractionBits + fraction
        < (field + 1) * Nat.pow 2 format.fractionBits := by rw [Nat.add_one_mul]; omega
      _ ≤ Nat.pow 2 format.exponentBits * Nat.pow 2 format.fractionBits :=
        Nat.mul_le_mul_right _ fieldSmall
  have weight : format.signWeight negative =
      negative.toNat * Nat.pow 2 format.exponentBits * Nat.pow 2 format.fractionBits := by
    rw [Nat.mul_assoc, ← sign_bit_eq, signWeight]
    cases negative <;> simp
  have sign : (format.signWeight negative +
      (field * Nat.pow 2 format.fractionBits + fraction)) / format.signBit % 2 = negative.toNat := by
    rw [weight, Nat.mul_assoc, ← sign_bit_eq, Nat.add_comm, Nat.add_mul_div_right _ _ signPos,
      Nat.div_eq_of_lt unsigned, Nat.zero_add]
    cases negative <;> rfl
  have whole : (format.signWeight negative +
      (field * Nat.pow 2 format.fractionBits + fraction)) / Nat.pow 2 format.fractionBits %
        Nat.pow 2 format.exponentBits = field := by
    rw [weight, ← Nat.add_assoc, ← Nat.add_mul, Nat.add_comm, Nat.add_mul_div_right _ _ places,
      Nat.div_eq_of_lt fractionSmall, Nat.zero_add, Nat.add_comm, Nat.add_mul_mod_self_right]
    exact Nat.mod_eq_of_lt fieldSmall
  have rest : (format.signWeight negative +
      (field * Nat.pow 2 format.fractionBits + fraction)) % Nat.pow 2 format.fractionBits =
        fraction := by
    rw [weight, ← Nat.add_assoc, ← Nat.add_mul, Nat.add_comm, Nat.add_mul_mod_self_right]
    exact Nat.mod_eq_of_lt fractionSmall
  rw [decode, sign, whole, rest]
  cases negative <;> rfl

theorem infinity_lt (format : Format) : format.infinity < format.signBit := by
  have fields : 0 < Nat.pow 2 format.exponentBits := Nat.pow_pos two_pos
  rw [infinity, topField, sign_bit_eq]
  exact Nat.mul_lt_mul_of_pos_right (by omega) (Nat.pow_pos two_pos)

/-- A finite pattern taken apart. -/
structure Splits (format : Format) (bits : ℕ) (negative : Bool) (whole : ℕ) (exponent : ℤ) :
    Prop where
  normal : format.Normal whole exponent
  finite : format.pattern whole exponent < format.infinity
  bits_eq : bits = format.signWeight negative + format.pattern whole exponent

theorem pattern_subnormal (format : Format) (fraction : ℕ) :
    format.pattern fraction format.lowest = fraction := by
  rw [pattern, sub_self, Int.toNat_zero, Nat.zero_mul, Nat.zero_add]

theorem pattern_normal (format : Format) {field : ℕ} (positive : 0 < field) (fraction : ℕ) :
    format.pattern (Nat.pow 2 format.fractionBits + fraction)
      (format.lowest + (field - 1 : ℕ)) = field * Nat.pow 2 format.fractionBits + fraction := by
  obtain ⟨before, rfl⟩ : ∃ before, field = before + 1 := ⟨field - 1, by omega⟩
  rw [pattern, add_sub_cancel_left, Int.toNat_natCast, Nat.add_sub_cancel, Nat.add_one_mul]
  omega

theorem splits_of_decode {bits : ℕ} (small : bits < 2 * format.signBit) {negative : Bool}
    {whole : ℕ} {exponent : ℤ} (decoded : format.decode bits = .finite negative whole exponent) :
    format.Splits bits negative whole exponent := by
  obtain ⟨sign, field, fraction, fieldSmall, fractionSmall, rfl⟩ := format.exists_fields small
  rw [decode_fields format sign fieldSmall fractionSmall] at decoded
  have places : 0 < Nat.pow 2 format.fractionBits := Nat.pow_pos two_pos
  split at decoded
  · split at decoded <;> cases decoded
  · rename_i notTop
    have below : field + 1 ≤ format.topField := by
      rw [topField] at notTop ⊢
      omega
    have finite : field * Nat.pow 2 format.fractionBits + fraction < format.infinity := by
      calc field * Nat.pow 2 format.fractionBits + fraction
          < (field + 1) * Nat.pow 2 format.fractionBits := by rw [Nat.add_one_mul]; omega
        _ ≤ format.infinity := Nat.mul_le_mul_right _ below
    split at decoded
    · rename_i zero
      cases decoded
      rw [zero, Nat.zero_mul, Nat.zero_add] at finite ⊢
      refine ⟨⟨le_rfl, by omega, fun other => absurd rfl other⟩, ?_, ?_⟩
      · rwa [pattern_subnormal]
      · rw [pattern_subnormal]
    · rename_i nonzero
      cases decoded
      have same := pattern_normal format (Nat.pos_of_ne_zero nonzero) fraction
      refine ⟨⟨by omega, by omega, fun _ => Nat.le_add_right _ _⟩, ?_, ?_⟩
      · rwa [same]
      · rw [same]

theorem decode_of_splits {bits : ℕ} {negative : Bool} {whole : ℕ} {exponent : ℤ}
    (splits : format.Splits bits negative whole exponent) :
    format.decode bits = .finite negative whole exponent := by
  obtain ⟨⟨lowest, small, implicit⟩, finite, rfl⟩ := splits
  have places : 0 < Nat.pow 2 format.fractionBits := Nat.pow_pos two_pos
  have fields : 0 < Nat.pow 2 format.exponentBits := Nat.pow_pos two_pos
  by_cases subnormal : whole < Nat.pow 2 format.fractionBits
  · have least : exponent = format.lowest := by
      by_contra other
      have := implicit other
      omega
    rw [least, pattern_subnormal] at *
    have top : 0 ≠ format.topField := by
      intro none
      rw [infinity, ← none, Nat.zero_mul] at finite
      omega
    have decoded := decode_fields format negative fields subnormal
    rwa [Nat.zero_mul, Nat.zero_add, if_neg top, if_pos rfl] at decoded
  · obtain ⟨fraction, rfl⟩ := Nat.exists_eq_add_of_le (not_lt.mp subnormal)
    obtain ⟨field, positive, rfl⟩ : ∃ field : ℕ, 0 < field ∧
        exponent = format.lowest + (field - 1 : ℕ) :=
      ⟨(exponent - format.lowest).toNat + 1, Nat.succ_pos _, by omega⟩
    rw [pattern_normal format positive] at finite ⊢
    have below : field < format.topField := by
      apply Nat.lt_of_mul_lt_mul_right (a := Nat.pow 2 format.fractionBits)
      rw [infinity] at finite
      omega
    have fieldSmall : field < Nat.pow 2 format.exponentBits := by
      rw [topField] at below
      omega
    rw [decode_fields format negative fieldSmall (by omega), if_neg below.ne, if_neg positive.ne']

theorem bits_of_infinite {bits : ℕ} (small : bits < 2 * format.signBit) {negative : Bool}
    (decoded : format.decode bits = .infinite negative) :
    bits = format.signWeight negative + format.infinity := by
  obtain ⟨sign, field, fraction, fieldSmall, fractionSmall, rfl⟩ := format.exists_fields small
  rw [decode_fields format sign fieldSmall fractionSmall] at decoded
  split at decoded
  · rename_i top
    split at decoded
    · rename_i none
      cases decoded
      rw [none, top, Nat.add_zero, infinity]
    · cases decoded
  · split at decoded <;> cases decoded

theorem exists_normal {bits : ℕ} (finite : bits < format.infinity) :
    ∃ whole exponent, format.Normal whole exponent ∧ format.pattern whole exponent = bits := by
  have unsigned := finite.trans format.infinity_lt
  have small : bits < 2 * format.signBit := by omega
  obtain ⟨negative, field, fraction, fieldSmall, fractionSmall, split⟩ := format.exists_fields small
  have plus : format.signWeight negative = 0 := by
    cases negative with
    | false => rfl
    | true =>
        have weight : format.signWeight true = format.signBit := rfl
        omega
  rw [plus, Nat.zero_add] at split
  have places : 0 < Nat.pow 2 format.fractionBits := Nat.pow_pos two_pos
  rcases Nat.eq_zero_or_pos field with zero | positive
  · refine ⟨fraction, format.lowest, ⟨le_rfl, by omega, fun other => absurd rfl other⟩, ?_⟩
    rw [pattern_subnormal, split, zero, Nat.zero_mul, Nat.zero_add]
  · refine ⟨Nat.pow 2 format.fractionBits + fraction, format.lowest + (field - 1 : ℕ),
      ⟨by omega, by omega, fun _ => Nat.le_add_right _ _⟩, ?_⟩
    rw [pattern_normal format positive, split]

/-! ## Order -/

variable {a b : ℕ} {c d : ℤ}

theorem value_lt_of_exponent_lt (first : format.Normal a c) (second : format.Normal b d)
    (less : c < d) : (a : ℚ) * 2 ^ c < b * 2 ^ d := by
  have lowest := first.lowest_le
  have implicit := second.implicit (by omega)
  have small : (a : ℚ) < (2 * Nat.pow 2 format.fractionBits : ℕ) := by
    exact_mod_cast first.whole_lt
  calc (a : ℚ) * 2 ^ c < (2 * Nat.pow 2 format.fractionBits : ℕ) * 2 ^ c := by gcongr
    _ = (Nat.pow 2 format.fractionBits : ℕ) * 2 ^ (c + 1) := by
      rw [zpow_add_one₀ two_ne_zero]
      push_cast
      ring
    _ ≤ b * 2 ^ d := by
      gcongr
      · exact one_le_two
      · exact less

/-- Numbers without redundant places are in the order of their exponents, then of their
significands. -/
theorem value_lt_iff (first : format.Normal a c) (second : format.Normal b d) :
    (a : ℚ) * 2 ^ c < b * 2 ^ d ↔ c < d ∨ c = d ∧ a < b := by
  rcases lt_trichotomy c d with less | rfl | more
  · exact iff_of_true (value_lt_of_exponent_lt first second less) (Or.inl less)
  · rw [mul_lt_mul_iff_left₀ (by positivity), Nat.cast_lt]
    simp
  · have reverse := value_lt_of_exponent_lt second first more
    exact iff_of_false (not_lt.mpr reverse.le) (by omega)

theorem pattern_lt_of_exponent_lt (first : format.Normal a c) (second : format.Normal b d)
    (less : c < d) : format.pattern a c < format.pattern b d := by
  have lowest := first.lowest_le
  have implicit := second.implicit (by omega)
  have small := first.whole_lt
  obtain ⟨gap, places⟩ : ∃ gap : ℕ,
      (d - format.lowest).toNat = (c - format.lowest).toNat + 1 + gap :=
    ⟨(d - c).toNat - 1, by omega⟩
  rw [pattern, pattern, places, Nat.add_mul, Nat.add_mul, Nat.one_mul]
  omega

/-- Patterns are in the order of the numbers that they stand for. -/
theorem pattern_lt_iff (first : format.Normal a c) (second : format.Normal b d) :
    format.pattern a c < format.pattern b d ↔ (a : ℚ) * 2 ^ c < b * 2 ^ d := by
  rw [value_lt_iff first second]
  rcases lt_trichotomy c d with less | rfl | more
  · exact iff_of_true (pattern_lt_of_exponent_lt first second less) (Or.inl less)
  · rw [pattern, pattern, Nat.add_lt_add_iff_left]
    simp
  · have reverse := pattern_lt_of_exponent_lt second first more
    exact iff_of_false reverse.not_gt (by omega)

theorem value_le_of_pattern_le (first : format.Normal a c) (second : format.Normal b d)
    (le : format.pattern a c ≤ format.pattern b d) : (a : ℚ) * 2 ^ c ≤ b * 2 ^ d :=
  not_lt.mp ((pattern_lt_iff second first).not.mp (not_lt.mpr le))

end Format

/-- The bits of a double are those that it was made of, unless its exponent field is the top one. -/
theorem to_bits_of_finite {bits : ℕ} (small : bits < 2 ^ 64)
    (finite : bits / 2 ^ 52 % 2 ^ 11 ≠ 2047) : (doubleOfBits bits).toBits.toNat = bits := by
  have kept : (UInt64.ofNat bits).toBitVec.toNat = bits := by
    rw [UInt64.toNat_toBitVec, UInt64.toNat_ofNat_of_lt' small]
  have valid : Float.Model.Format.binary64.Valid (UInt64.ofNat bits).toBitVec := by
    constructor
    intro top
    exfalso
    apply finite
    rw [Float.Model.UnpackedFloat.unpackExponent_def] at top
    have field := congrArg BitVec.toNat top
    simp only [BitVec.extractLsb'_toNat, kept] at field
    rw [Nat.shiftRight_eq_div_pow] at field
    exact field
  -- Packing normalizes only values that are not numbers, which have the top exponent field.
  have packed := Float.Model.UnpackedFloat.pack_unpack_of_valid valid
  exact (congrArg BitVec.toNat packed).trans kept

theorem splits_of_double {value : Float} {negative : Bool} {whole : ℕ} {exponent : ℤ}
    (number : datum value = .finite negative whole exponent) :
    Format.double.Splits value.toBits.toNat negative whole exponent :=
  Format.splits_of_decode value.toBits.toNat_lt number

theorem datum_of_splits {bits : ℕ} {negative : Bool} {whole : ℕ} {exponent : ℤ}
    (splits : Format.double.Splits bits negative whole exponent) :
    datum (doubleOfBits bits) = .finite negative whole exponent := by
  have decoded := Format.decode_of_splits splits
  have small : bits < 2 ^ 64 := by
    have unsigned := splits.finite.trans Format.double.infinity_lt
    have signBit : Format.double.signBit = 2 ^ 63 := rfl
    rw [splits.bits_eq, Format.signWeight]
    split <;> omega
  have finite : bits / 2 ^ 52 % 2 ^ 11 ≠ 2047 := by
    intro top
    have field : bits / Nat.pow 2 Format.double.fractionBits %
        Nat.pow 2 Format.double.exponentBits = Format.double.topField := top
    rw [Format.decode] at decoded
    simp only [field, if_true] at decoded
    split at decoded <;> cases decoded
  rw [datum, to_bits_of_finite small finite, decoded]

theorem double_of_splits {value : Float} {negative : Bool} {whole : ℕ} {exponent : ℤ}
    (number : datum value = .finite negative whole exponent) :
    doubleOfBits (Format.double.signWeight negative + Format.double.pattern whole exponent) =
      value := by
  rw [← (splits_of_double number).bits_eq, doubleOfBits, UInt64.ofNat_toNat]
  exact Float.ofBits_toBits value

end Achievements.Ieee
