import Achievements.Number
import Achievements.Proofs.Json.Doubles

/-!
# The order of doubles

Doubles are compared through their exponents and significands. Since these have no redundant places,
that is the order of the numbers that they stand for, with the infinities at either end:
`Number.compare_real_right` compares any double with a finite one.
-/

set_option autoImplicit false

namespace Achievements.Ieee

open Float.Model (UnpackedFloat)
open Float.Model.UnpackedFloat (Sign)

/-! ## What a double stands for -/

def signed (negative : Bool) (size : ℚ) : ℚ :=
  if negative then -size else size

/-- The place of a datum among the rational numbers and the infinities. What is not a number comes
before all numbers. -/
def Datum.place : Datum → WithBot (WithTop ℚ)
  | .nan => ⊥
  | .infinite negative => if negative then ⊥ else ((⊤ : WithTop ℚ) : WithBot (WithTop ℚ))
  | .finite negative whole exponent => ((signed negative (whole * 2 ^ exponent) : ℚ) : WithTop ℚ)

/-- The rational number that a finite double stands for; zero for any other. -/
def worth (value : Float) : ℚ :=
  match datum value with
  | .finite negative whole exponent => signed negative (whole * 2 ^ exponent)
  | _ => 0

theorem place_of_finite {value : Float} (finite : isFinite value = true) :
    (datum value).place = ((worth value : ℚ) : WithTop ℚ) := by
  obtain ⟨negative, whole, exponent, number⟩ := Json.number_of_finite finite
  rw [worth, number, Datum.place]

theorem worth_of_number {value : Float} {negative : Bool} {whole : ℕ} {exponent : ℤ}
    (number : datum value = .finite negative whole exponent) :
    worth value = signed negative (whole * 2 ^ exponent) := by
  rw [worth, number]

theorem worth_eq_zero_iff {value : Float} {negative : Bool} {whole : ℕ} {exponent : ℤ}
    (number : datum value = .finite negative whole exponent) : worth value = 0 ↔ whole = 0 := by
  have power : (2 : ℚ) ^ exponent ≠ 0 := zpow_ne_zero exponent two_ne_zero
  rw [worth_of_number number]
  cases negative <;> simp [signed, power]

/-- Only a finite double has the place of a rational number. -/
theorem finite_of_place {value : Float} {number : ℚ}
    (same : (datum value).place = ((number : ℚ) : WithTop ℚ)) :
    isFinite value = true ∧ worth value = number := by
  cases known : datum value with
  | nan =>
      rw [known] at same
      cases same
  | infinite negative =>
      rw [known] at same
      cases negative <;> cases same
  | finite negative whole exponent =>
      refine ⟨Json.finite_of_number known, ?_⟩
      rw [known, Datum.place, WithBot.coe_inj, WithTop.coe_inj] at same
      exact (worth_of_number known).trans same

/-! ## Doubles taken apart -/

def signOf (negative : Bool) : Sign :=
  if negative then .negative else .positive

/-- A datum in the form on which the arithmetic of doubles works. -/
def unpacked : Datum → UnpackedFloat
  | .nan => .notANumber
  | .infinite negative => .infinity (signOf negative)
  | .finite negative whole exponent =>
      if positive : 0 < whole then .finite (signOf negative) whole exponent positive
      else .zero (signOf negative)

theorem sign_of_bit (bit : BitVec 1) : Sign.ofBitVec bit = signOf (bit.toNat == 1) := by
  rcases BitVec.eq_zero_or_eq_one bit with rfl | rfl <;> rfl

section Fields

variable (vector : BitVec 64)

theorem unpack_mantissa_eq : (@UnpackedFloat.unpackMantissa .binary64 vector).toNat =
    vector.toNat % Nat.pow 2 Format.double.fractionBits := by
  rw [UnpackedFloat.unpackMantissa_def, BitVec.extractLsb'_toNat, Nat.shiftRight_zero]
  rfl

theorem unpack_exponent_eq : (@UnpackedFloat.unpackExponent .binary64 vector).toNat =
    vector.toNat / Nat.pow 2 Format.double.fractionBits %
      Nat.pow 2 Format.double.exponentBits := by
  rw [UnpackedFloat.unpackExponent_def, BitVec.extractLsb'_toNat, Nat.shiftRight_eq_div_pow]
  rfl

theorem unpack_sign_eq : Sign.ofBitVec (@UnpackedFloat.unpackSign .binary64 vector) =
    signOf (vector.toNat / Format.double.signBit % 2 == 1) := by
  rw [sign_of_bit, UnpackedFloat.unpackSign_def, BitVec.extractLsb'_toNat,
    Nat.shiftRight_eq_div_pow]
  rfl

theorem implicit_bit_eq : (1#1 ++ @UnpackedFloat.unpackMantissa .binary64 vector).toNat =
    Nat.pow 2 Format.double.fractionBits +
      vector.toNat % Nat.pow 2 Format.double.fractionBits := by
  have below : vector.toNat % 2 ^ 52 < 2 ^ 52 := Nat.mod_lt _ (Nat.pow_pos two_pos)
  rw [BitVec.toNat_append, unpack_mantissa_eq, Nat.shiftLeft_eq, Nat.mul_comm]
  exact (Nat.two_pow_add_eq_or_of_lt below 1).symm

theorem unpack_vector :
    UnpackedFloat.unpack .binary64 vector = unpacked (Format.double.decode vector.toNat) := by
  have mantissa := unpack_mantissa_eq vector
  have exponent := unpack_exponent_eq vector
  have implicit := implicit_bit_eq vector
  have top : (-1#11).toNat = Format.double.topField := by decide
  have noField : (0#11).toNat = 0 := rfl
  have noFraction : (0#52).toNat = 0 := rfl
  unfold UnpackedFloat.unpack
  simp only [unpack_sign_eq, ← BitVec.toNat_inj, mantissa, exponent, implicit, top, noField,
    noFraction, Format.decode]
  -- Both sides branch on the exponent field: its largest value, zero, and all others.
  generalize vector.toNat % Nat.pow 2 Format.double.fractionBits = fraction at *
  generalize vector.toNat / Nat.pow 2 Format.double.fractionBits %
    Nat.pow 2 Format.double.exponentBits = field at *
  by_cases special : field = Format.double.topField
  · rw [if_pos special, if_pos special]
    by_cases none : fraction = 0
    · rw [if_pos none, if_pos none, unpacked]
    · rw [if_neg none, if_neg none, unpacked]
  · rw [if_neg special, if_neg special]
    by_cases subnormal : field = 0
    · subst subnormal
      rw [if_pos rfl, if_pos rfl, unpacked]
      by_cases none : fraction = 0
      · simp [none]
      · rw [dif_neg none, dif_pos (Nat.pos_of_ne_zero none)]
        rfl
    · have positive : 0 < Nat.pow 2 Format.double.fractionBits + fraction :=
        Nat.add_pos_left (Nat.pow_pos two_pos) _
      rw [if_neg subnormal, if_neg subnormal, unpacked, dif_pos positive]
      congr 1
      change (field : ℤ) - (1023 + 52) = -1074 + ((field - 1 : ℕ) : ℤ)
      omega

end Fields

theorem unpack_eq (value : Float) : value.toModel.unpack = unpacked (datum value) :=
  unpack_vector value.toModel.toBits.toBitVec

/-- A double has the datum of the bits that it was made of. -/
theorem datum_of_bits {bits : ℕ} (small : bits < 2 ^ 64) :
    datum (doubleOfBits bits) = Format.double.decode bits := by
  have kept : (UInt64.ofNat bits).toBitVec.toNat = bits := by
    rw [UInt64.toNat_toBitVec, UInt64.toNat_ofNat_of_lt' small]
  have made : doubleOfBits bits =
      .ofModel (.pack (UnpackedFloat.unpack .binary64 (UInt64.ofNat bits).toBitVec)) := rfl
  cases decoded : Format.double.decode bits with
  | nan =>
      rw [made, unpack_vector, kept, decoded]
      decide
  | infinite negative =>
      rw [made, unpack_vector, kept, decoded]
      cases negative <;> decide
  | finite negative whole exponent =>
      exact datum_of_splits (Format.splits_of_decode small decoded)

theorem is_nan_iff (value : Float) : value.isNaN = true ↔ datum value = .nan := by
  have unpacks : value.isNaN = (unpacked (datum value)).isNaN := congrArg _ (unpack_eq value)
  rw [unpacks]
  cases datum value with
  | nan => exact iff_of_true rfl rfl
  | infinite negative => simp [unpacked, UnpackedFloat.isNaN]
  | finite negative whole exponent =>
      rw [unpacked]
      split <;> simp [UnpackedFloat.isNaN]

theorem lt_iff_unpacked (left right : Float) :
    left < right ↔ (unpacked (datum left)).lt (unpacked (datum right)) = true := by
  have less : left < right ↔ left.toModel.unpack.lt right.toModel.unpack = true := by
    change decide (left.toModel < right.toModel) = true ↔ _
    rw [decide_eq_true_iff]
    rfl
  rw [less, unpack_eq, unpack_eq]

theorem le_iff_unpacked (left right : Float) :
    left ≤ right ↔ (unpacked (datum left)).le (unpacked (datum right)) = true := by
  have lessOrEqual : left ≤ right ↔ left.toModel.unpack.le right.toModel.unpack = true := by
    change decide (left.toModel ≤ right.toModel) = true ↔ _
    rw [decide_eq_true_iff]
    rfl
  rw [lessOrEqual, unpack_eq, unpack_eq]

/-! ## Comparisons -/

theorem then_eq_lt_iff (a b : ℕ) (c d : ℤ) :
    (compare c d).then (compare a b) = .lt ↔ c < d ∨ c = d ∧ a < b := by
  rw [Ordering.then_eq_lt, compare_lt_iff_lt, compare_eq_iff_eq, compare_lt_iff_lt]

theorem then_eq_gt_iff (a b : ℕ) (c d : ℤ) :
    (compare c d).then (compare a b) = .gt ↔ d < c ∨ d = c ∧ b < a := by
  rw [Ordering.then_eq_gt, compare_gt_iff_gt, compare_eq_iff_eq, compare_gt_iff_gt, eq_comm]

/-- The doubles of finite data are in the order of the numbers that they stand for. -/
theorem unpacked_lt_iff {a b : ℕ} {c d : ℤ} (left right : Bool)
    (first : Format.double.Normal a c) (second : Format.double.Normal b d) :
    (unpacked (.finite left a c)).lt (unpacked (.finite right b d)) = true ↔
      signed left (a * 2 ^ c) < signed right (b * 2 ^ d) := by
  -- A significand of zero is unpacked to a zero, which keeps its sign but has no exponent.
  rcases Nat.eq_zero_or_pos a with rfl | aPos <;> rcases Nat.eq_zero_or_pos b with rfl | bPos
  · cases left <;> cases right <;> simp [unpacked, signOf, signed, UnpackedFloat.lt,
      UnpackedFloat.compare]
  · have positive : 0 < (b : ℚ) * 2 ^ d := by positivity
    cases left <;> cases right <;> simp [unpacked, signOf, signed, UnpackedFloat.lt,
      UnpackedFloat.compare, bPos, positive, positive.le]
  · have positive : 0 < (a : ℚ) * 2 ^ c := by positivity
    cases left <;> cases right <;> simp [unpacked, signOf, signed, UnpackedFloat.lt,
      UnpackedFloat.compare, aPos, positive, positive.le]
  · have firstPos : 0 < (a : ℚ) * 2 ^ c := by positivity
    have secondPos : 0 < (b : ℚ) * 2 ^ d := by positivity
    cases left <;> cases right <;> simp only [unpacked, signOf, signed, UnpackedFloat.lt,
      UnpackedFloat.compare, aPos, bPos, dif_pos, if_true, Bool.false_eq_true, if_false]
    · rw [Format.value_lt_iff first second, ← then_eq_lt_iff]
      simp
    · exact iff_of_false (by simp) (by linarith)
    · exact iff_of_true (by simp) (by linarith)
    · rw [neg_lt_neg_iff, Format.value_lt_iff second first, ← then_eq_gt_iff]
      simp

theorem unpacked_le_iff {a b : ℕ} {c d : ℤ} (left right : Bool)
    (first : Format.double.Normal a c) (second : Format.double.Normal b d) :
    (unpacked (.finite left a c)).le (unpacked (.finite right b d)) = true ↔
      signed left (a * 2 ^ c) ≤ signed right (b * 2 ^ d) := by
  have not_more (order : Ordering) : order.isLE = true ↔ order ≠ .gt := by cases order <;> decide
  have not_less (order : Ordering) : order.swap.isLE = true ↔ order ≠ .lt := by
    cases order <;> decide
  rcases Nat.eq_zero_or_pos a with rfl | aPos <;> rcases Nat.eq_zero_or_pos b with rfl | bPos
  · cases left <;> cases right <;> simp [unpacked, signOf, signed, UnpackedFloat.le,
      UnpackedFloat.compare]
  · have positive : 0 < (b : ℚ) * 2 ^ d := by positivity
    cases left <;> cases right <;> simp [unpacked, signOf, signed, UnpackedFloat.le,
      UnpackedFloat.compare, bPos, positive.le, positive.not_ge]
  · have positive : 0 < (a : ℚ) * 2 ^ c := by positivity
    cases left <;> cases right <;> simp [unpacked, signOf, signed, UnpackedFloat.le,
      UnpackedFloat.compare, aPos, positive.le, positive.not_ge]
  · have firstPos : 0 < (a : ℚ) * 2 ^ c := by positivity
    have secondPos : 0 < (b : ℚ) * 2 ^ d := by positivity
    cases left <;> cases right <;> simp only [unpacked, signOf, signed, UnpackedFloat.le,
      UnpackedFloat.compare, aPos, bPos, dif_pos, if_true, Bool.false_eq_true, if_false,
      Option.any_some]
    · rw [not_more, ne_eq, then_eq_gt_iff, ← Format.value_lt_iff second first, not_lt]
    · exact iff_of_false (by simp) (by linarith)
    · exact iff_of_true (by simp) (by linarith)
    · rw [not_less, ne_eq, then_eq_lt_iff, ← Format.value_lt_iff first second, not_lt,
        neg_le_neg_iff]

theorem rational_lt_top (number : ℚ) : ((number : WithTop ℚ) : WithBot (WithTop ℚ)) < ⊤ :=
  WithBot.coe_lt_coe.mpr (WithTop.coe_lt_top number)

theorem lt_iff_place (left right : Float) : left < right ↔ datum left ≠ .nan ∧ datum right ≠ .nan ∧
    (datum left).place < (datum right).place := by
  rw [lt_iff_unpacked]
  cases first : datum left with
  | nan => simp [unpacked, UnpackedFloat.lt, UnpackedFloat.compare]
  | infinite negative =>
      cases second : datum right with
      | nan => cases negative <;> simp [unpacked, signOf, UnpackedFloat.lt, UnpackedFloat.compare]
      | infinite other =>
          have order : compare Sign.negative Sign.positive = .lt := rfl
          cases negative <;> cases other <;> simp [unpacked, signOf, UnpackedFloat.lt,
            UnpackedFloat.compare, Datum.place, order]
      | finite other whole exponent =>
          rcases Nat.eq_zero_or_pos whole with rfl | positive
          · cases negative <;> simp [unpacked, signOf, UnpackedFloat.lt, UnpackedFloat.compare,
              Datum.place]
          · cases negative <;> simp [unpacked, signOf, UnpackedFloat.lt, UnpackedFloat.compare,
              Datum.place, positive]
  | finite negative whole exponent =>
      cases second : datum right with
      | nan =>
          rcases Nat.eq_zero_or_pos whole with rfl | positive
          · simp [unpacked, UnpackedFloat.lt, UnpackedFloat.compare]
          · simp [unpacked, UnpackedFloat.lt, UnpackedFloat.compare, positive]
      | infinite other =>
          rcases Nat.eq_zero_or_pos whole with rfl | positive
          · cases other <;> simp [unpacked, signOf, UnpackedFloat.lt, UnpackedFloat.compare,
              Datum.place, rational_lt_top]
          · cases other <;> simp [unpacked, signOf, UnpackedFloat.lt, UnpackedFloat.compare,
              Datum.place, rational_lt_top, positive]
      | finite other whole exponent =>
          rw [unpacked_lt_iff negative other (splits_of_double first).normal
            (splits_of_double second).normal]
          simp [Datum.place]

section

variable {left right : Float} (leftFinite : isFinite left = true) (rightFinite : isFinite right = true)
include leftFinite rightFinite

theorem lt_iff_worth : left < right ↔ worth left < worth right := by
  obtain ⟨_, _, _, first⟩ := Json.number_of_finite leftFinite
  obtain ⟨_, _, _, second⟩ := Json.number_of_finite rightFinite
  rw [lt_iff_unpacked, first, second, worth_of_number first, worth_of_number second]
  exact unpacked_lt_iff _ _ (splits_of_double first).normal (splits_of_double second).normal

theorem le_iff_worth : left ≤ right ↔ worth left ≤ worth right := by
  obtain ⟨_, _, _, first⟩ := Json.number_of_finite leftFinite
  obtain ⟨_, _, _, second⟩ := Json.number_of_finite rightFinite
  rw [le_iff_unpacked, first, second, worth_of_number first, worth_of_number second]
  exact unpacked_le_iff _ _ (splits_of_double first).normal (splits_of_double second).normal

end

/-- Any double compares with a finite one as its place does with that number. -/
theorem compare_real_right (left : Float) {right : Float} (finite : isFinite right = true) :
    Number.compareReal left right = cmp (datum left).place ((worth right : ℚ) : WithTop ℚ) := by
  have place := place_of_finite finite
  obtain ⟨negative, whole, exponent, number⟩ := Json.number_of_finite finite
  have known : datum right ≠ .nan := by
    rw [number]
    simp
  have noNan : right.isNaN = false := Bool.eq_false_iff.mpr ((is_nan_iff right).not.mpr known)
  cases nan : left.isNaN with
  | true =>
      rw [(is_nan_iff left).mp nan, Number.compareReal, nan, noNan]
      rfl
  | false =>
      have leftKnown := (is_nan_iff left).not.mp (Bool.eq_false_iff.mp nan)
      simp only [Number.compareReal, nan, noNan, lt_iff_place, leftKnown, known, place, ne_eq,
        not_false_eq_true, true_and, cmp, cmpUsing]

theorem compare_real_swap (left right : Float) :
    (Number.compareReal left right).swap = Number.compareReal right left := by
  unfold Number.compareReal
  cases left.isNaN <;> cases right.isNaN <;> try rfl
  by_cases less : left < right
  · have notMore : ¬ right < left := by
      rw [lt_iff_place] at less ⊢
      rintro ⟨_, _, more⟩
      exact lt_asymm less.2.2 more
    simp [less, notMore]
  · by_cases more : right < left <;> simp [less, more]

end Achievements.Ieee
