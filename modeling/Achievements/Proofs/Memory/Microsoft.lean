import Achievements.Memory.RealFormat
import Achievements.Proofs.Ieee.Integers
import Achievements.Proofs.Ieee.Quotients

/-!
# Microsoft Binary Format

The exponent of a number is estimated before it is written. The number is divided by that power of two,
and the fraction is halved or doubled until it is at least one half and below one. All of this is exact:
the fraction stays a `Microsoft.Share` of the number, and this tells how many turns the loops have left.
So an estimate next to the exponent makes no difference, and `Microsoft.encodes_from` says that the loops
on doubles end and leave the pattern of `Microsoft.encodeFrom`. A power of two that is infinite or zero
keeps one of the loops going forever; `Microsoft.encodes_by_iff` puts the two together.
-/

set_option autoImplicit false

namespace Achievements

open Ieee
open Float.Model (UnpackedFloat)

namespace Microsoft

/-! ## Estimates -/

section Estimates

variable (mantissa : ℕ) (exponent estimate : ℤ)

theorem raise_below_one_eq : raiseBelowOne mantissa exponent estimate =
    max estimate (binaryExponent mantissa exponent) := by
  fun_induction raiseBelowOne mantissa exponent estimate with
  | case1 estimate above ih => rw [ih]; omega
  | case2 estimate reached => omega

theorem lower_to_half_eq : lowerToHalf mantissa exponent estimate =
    min estimate (binaryExponent mantissa exponent) := by
  fun_induction lowerToHalf mantissa exponent estimate with
  | case1 estimate below ih => rw [ih]; omega
  | case2 estimate reached => omega

/-- Whatever the estimate, the exponent is found. -/
theorem exponent_found :
    lowerToHalf mantissa exponent (raiseBelowOne mantissa exponent estimate) =
      binaryExponent mantissa exponent := by
  rw [lower_to_half_eq, raise_below_one_eq, min_eq_right (le_max_right _ _)]

end Estimates

/-! ## Loops on doubles -/

/-- A loop that changes a fraction and an exponent, as long as a condition holds of the fraction. -/
inductive Loop (goesOn : Float → Prop) (next : Float → Float) (change : ℤ) :
    Float → ℤ → Float → ℤ → Prop
  | done {fraction : Float} {exponent : ℤ} (ends : ¬goesOn fraction) :
      Loop goesOn next change fraction exponent fraction exponent
  | turn {fraction last : Float} {exponent power : ℤ} (more : goesOn fraction)
      (rest : Loop goesOn next change (next fraction) (exponent + change) last power) :
      Loop goesOn next change fraction exponent last power

namespace Loop

variable {goesOn : Float → Prop} {next : Float → Float} {change : ℤ}

/-- A loop leaves only one fraction and one exponent. -/
theorem unique {fraction first second : Float} {exponent power other : ℤ}
    (run : Loop goesOn next change fraction exponent first power)
    (again : Loop goesOn next change fraction exponent second other) :
    first = second ∧ power = other := by
  induction run with
  | done ends =>
      cases again with
      | done => exact ⟨rfl, rfl⟩
      | turn more => exact absurd more ends
  | turn more _ ih =>
      cases again with
      | done ends => exact absurd more ends
      | turn _ rest => exact ih rest

/-- A loop ends if an invariant tells how many turns are left. -/
theorem reaches {invariant : Float → ℤ → Prop} {left : ℤ → ℕ}
    (more : ∀ fraction exponent, invariant fraction exponent → (goesOn fraction ↔ 0 < left exponent))
    (turn : ∀ fraction exponent, invariant fraction exponent → 0 < left exponent →
      invariant (next fraction) (exponent + change) ∧ left exponent = left (exponent + change) + 1)
    {fraction : Float} {exponent : ℤ} (start : invariant fraction exponent) :
    ∃ last, Loop goesOn next change fraction exponent last (exponent + left exponent * change) ∧
      invariant last (exponent + left exponent * change) := by
  generalize turns : left exponent = count
  induction count generalizing fraction exponent with
  | zero =>
      have ends : ¬goesOn fraction := by
        rw [more fraction exponent start, turns]
        exact Nat.lt_irrefl 0
      rw [Nat.cast_zero, zero_mul, add_zero]
      exact ⟨fraction, done ends, start⟩
  | succ count ih =>
      have positive : 0 < left exponent := turns ▸ Nat.succ_pos count
      obtain ⟨kept, fewer⟩ := turn fraction exponent start positive
      obtain ⟨last, rest, final⟩ := ih kept (by omega)
      have place : exponent + change + count * change = exponent + (count + 1 : ℕ) * change := by
        push_cast
        ring
      rw [place] at rest final
      exact ⟨last, .turn ((more fraction exponent start).mpr positive) rest, final⟩

/-- A loop does not end if an invariant keeps it going. -/
theorem endless (invariant : Float → Prop) (more : ∀ fraction, invariant fraction → goesOn fraction)
    (kept : ∀ fraction, invariant fraction → invariant (next fraction)) {fraction last : Float}
    {exponent power : ℤ} (start : invariant fraction) :
    ¬Loop goesOn next change fraction exponent last power := by
  intro run
  induction run with
  | done ends => exact ends (more _ start)
  | turn _ _ ih => exact ih (kept _ start)

end Loop

/-- A fraction is halved as long as it is at least one. -/
def Raised : Float → ℤ → Float → ℤ → Prop :=
  Loop (1 ≤ ·) (· / 2) 1

/-- A fraction is doubled as long as it is below one half. -/
def Lowered : Float → ℤ → Float → ℤ → Prop :=
  Loop (· < 0.5) (· * 2) (-1)

/-- The pattern of a fraction and an exponent. -/
def patternOf (negative : Bool) (fraction : Float) (power : ℤ) : ℕ :=
  let biased := power + 128
  if biased < 1 ∨ 255 < biased then 0
  else
    let significand := min (fraction * 16777216).toUInt32.toNat 0xFFFFFF
    biased.toNat * 0x1000000 + (if negative then 0x800000 else 0) + significand % 0x800000

/-- The loops on doubles, from an estimate of the exponent and the power that it stands for to the
pattern of a value other than zero. -/
def EncodesBy (divisor : Float) (estimate : ℤ) (value : Float) (pattern : ℕ) : Prop :=
  ∃ raised risen fraction power,
    Raised (value.abs / divisor) estimate raised risen ∧
      Lowered raised risen fraction power ∧ pattern = patternOf (value < 0) fraction power

/-- The loops on doubles, if powers of two are exact. -/
def Encodes (estimate : ℤ) : Float → ℕ → Prop :=
  EncodesBy (powerOfTwo estimate) estimate

theorem EncodesBy.unique {divisor : Float} {estimate : ℤ} {value : Float} {first second : ℕ}
    (run : EncodesBy divisor estimate value first)
    (again : EncodesBy divisor estimate value second) : first = second := by
  obtain ⟨raised, risen, fraction, power, up, down, rfl⟩ := run
  obtain ⟨raisedToo, risenToo, fractionToo, powerToo, upToo, downToo, rfl⟩ := again
  obtain ⟨rfl, rfl⟩ := up.unique upToo
  obtain ⟨rfl, rfl⟩ := down.unique downToo
  rfl

/-! ## Fractions -/

theorem datum_of_zero : datum 0 = .finite false 0 (-1074) := by
  decide

theorem datum_of_two : datum 2 = .finite false (2 ^ 52) (-51) := by
  decide

theorem datum_of_half : datum 0.5 = .finite false (2 ^ 52) (-53) := by
  decide

theorem datum_of_wide : datum 16777216 = .finite false (2 ^ 52) (-28) := by
  decide

theorem number_of_zero : isFinite 0 = true ∧ worth 0 = 0 := by
  refine ⟨Json.finite_of_number datum_of_zero, ?_⟩
  rw [worth_of_number datum_of_zero, Nat.cast_zero, zero_mul, signed_zero]

theorem number_of_power {value : Float} {place : ℤ}
    (number : datum value = .finite false (2 ^ 52) place) :
    isFinite value = true ∧ worth value = 2 ^ (place + 52) := by
  refine ⟨Json.finite_of_number number, ?_⟩
  rw [worth_of_number number, signed, if_neg Bool.false_ne_true, add_comm,
    zpow_add₀ two_ne_zero]
  norm_cast

/-- Doubles have the powers of two from the least positive double on. -/
theorem has_power_of_two {power : ℤ} (low : -1074 ≤ power) (high : power ≤ 1023) :
    Format.double.Has ((2 : ℚ) ^ power) := by
  have one : ((1 : ℕ) : ℚ) * 2 ^ power = 2 ^ power := by rw [Nat.cast_one, one_mul]
  rcases lt_or_ge power (-1022) with subnormal | normal
  · obtain ⟨place, rfl⟩ : ∃ place : ℕ, power = place - 1074 := ⟨(power + 1074).toNat, by omega⟩
    have short : place < 52 := by omega
    have whole : 2 ^ place < 2 ^ 52 := Nat.pow_lt_pow_right (by decide) short
    have least : Format.double.lowest = -1074 := by decide
    refine ⟨2 ^ place, -1074, ⟨least.le, ?_, fun other => absurd least.symm other⟩, ?_, ?_⟩
    · exact whole.trans (by decide)
    · rw [← least, Format.pattern_subnormal]
      exact whole.trans (by decide)
    · rw [Nat.cast_pow, Nat.cast_two, ← zpow_natCast, ← zpow_add₀ two_ne_zero, sub_eq_add_neg]
  · rw [← one]
    refine double_has (by norm_num) normal ?_
    rw [one, double_limit_eq, ← zpow_natCast, ← zpow_add₀ two_ne_zero]
    exact zpow_lt_zpow_right₀ one_lt_two (by omega)

theorem number_of_power_of_two {power : ℤ} (low : -1074 ≤ power) (high : power ≤ 1023) :
    isFinite (powerOfTwo power) = true ∧ worth (powerOfTwo power) = 2 ^ power := by
  have place := place_of_double false 1 power
  rw [Nat.cast_one, one_mul, signed, if_neg Bool.false_ne_true] at place
  refine exact_of_placed place ?_
  rw [abs_of_pos (by positivity)]
  exact has_power_of_two low high

theorem infinite_power_of_two {power : ℤ} (large : 1023 < power) (high : power ≤ 1025) :
    datum (powerOfTwo power) = .infinite false := by
  obtain rfl | rfl : power = 1024 ∨ power = 1025 := by omega
  all_goals decide +kernel

/-- Next to the exponents of doubles, a power of two is neither zero nor infinite up to the largest. -/
theorem search_ends_iff {power : ℤ} (low : -1074 ≤ power) (high : power ≤ 1025) :
    searchEnds (powerOfTwo power) = true ↔ power ≤ 1023 := by
  rcases le_or_gt power 1023 with fits | large
  · obtain ⟨finite, worth⟩ := number_of_power_of_two low fits
    obtain ⟨_, whole, _, known⟩ := Json.number_of_finite finite
    have nonzero : whole ≠ 0 := by
      rw [ne_eq, ← worth_eq_zero_iff known, worth]
      exact zpow_ne_zero power two_ne_zero
    exact iff_of_true (by simpa only [searchEnds, known, bne_iff_ne] using nonzero) fits
  · rw [searchEnds, infinite_power_of_two large high]
    exact iff_of_false Bool.false_ne_true large.not_ge

/-- What is left of a number when a power of two near its exponent is split off. -/
structure Share (mantissa : ℕ) (exponent : ℤ) (fraction : Float) (power : ℤ) : Prop where
  finite : isFinite fraction = true
  worth_eq : worth fraction = mantissa * 2 ^ exponent / 2 ^ power
  near : |power - binaryExponent mantissa exponent| ≤ 900

section Shares

variable {mantissa : ℕ} (exponent : ℤ) (positive : 0 < mantissa) (small : mantissa < 2 ^ 53)

include positive

theorem log_eq_binary_exponent :
    Int.log 2 ((mantissa : ℚ) * 2 ^ exponent) + 1 = binaryExponent mantissa exponent := by
  rw [log_of_scaled positive, binaryExponent]

theorem one_le_share_iff (power : ℤ) :
    1 ≤ (mantissa : ℚ) * 2 ^ exponent / 2 ^ power ↔ power < binaryExponent mantissa exponent := by
  have log := log_eq_binary_exponent exponent positive
  have reaches := Int.zpow_le_iff_le_log (b := 2) (x := power) (by decide)
    (by positivity : (0 : ℚ) < mantissa * 2 ^ exponent)
  rw [Nat.cast_two] at reaches
  rw [one_le_div (by positivity), reaches]
  omega

theorem share_lt_half_iff (power : ℤ) :
    (mantissa : ℚ) * 2 ^ exponent / 2 ^ power < 1 / 2 ↔
      binaryExponent mantissa exponent < power := by
  have before := one_le_share_iff exponent positive (power - 1)
  have twice : (mantissa : ℚ) * 2 ^ exponent / 2 ^ (power - 1) =
      2 * (mantissa * 2 ^ exponent / 2 ^ power) := by
    rw [zpow_sub_one₀ two_ne_zero]
    field_simp
  rw [twice] at before
  constructor
  · intro below
    by_contra notBelow
    have := before.mpr (by omega)
    linarith
  · intro below
    by_contra notBelow
    have := before.mp (by linarith)
    omega

variable {exponent}
include small

/-- Shares of powers of two that are not too far away are doubles. -/
theorem has_share {power : ℤ} (near : |power - binaryExponent mantissa exponent| ≤ 900) :
    Format.double.Has ((mantissa : ℚ) * 2 ^ exponent / 2 ^ power) := by
  have bounds := abs_le.mp near
  have bits : mantissa.log2 < 53 := (Nat.log2_lt positive.ne').mpr small
  have log : binaryExponent mantissa exponent = mantissa.log2 + exponent + 1 := rfl
  have scaled : (mantissa : ℚ) * 2 ^ exponent / 2 ^ power = mantissa * 2 ^ (exponent - power) := by
    rw [zpow_sub₀ two_ne_zero, mul_div_assoc]
  have below : (mantissa : ℚ) * 2 ^ exponent / 2 ^ power < Format.double.limit := by
    have size := lt_zpow_log ((mantissa : ℚ) * 2 ^ exponent)
    rw [log_eq_binary_exponent exponent positive] at size
    rw [double_limit_eq, div_lt_iff₀ (by positivity), ← zpow_natCast, ← zpow_add₀ two_ne_zero,
      ← zpow_add₀ two_ne_zero]
    exact size.trans_le (zpow_le_zpow_right₀ one_le_two (by omega))
  rw [scaled] at below ⊢
  exact double_has small (by omega) below

variable {power : ℤ} {fraction : Float} (share : Share mantissa exponent fraction power)
include share

theorem share_of_half (further : power < binaryExponent mantissa exponent) :
    Share mantissa exponent (fraction / 2) (power + 1) := by
  have bounds := abs_le.mp share.near
  have near : |power + 1 - binaryExponent mantissa exponent| ≤ 900 :=
    abs_le.mpr ⟨by omega, by omega⟩
  obtain ⟨two, worth⟩ := number_of_power datum_of_two
  have next : Ieee.worth fraction / Ieee.worth 2 =
      mantissa * 2 ^ exponent / 2 ^ (power + 1) := by
    rw [share.worth_eq, worth, zpow_add_one₀ two_ne_zero]
    norm_num [div_div]
  have half := number_of_div share.finite two (by rw [worth]; positivity) (by
    rw [next, abs_of_nonneg (by positivity)]
    exact has_share positive small near)
  exact ⟨half.1, half.2.trans next, near⟩

theorem share_of_double (further : binaryExponent mantissa exponent < power) :
    Share mantissa exponent (fraction * 2) (power + -1) := by
  have bounds := abs_le.mp share.near
  have near : |power + -1 - binaryExponent mantissa exponent| ≤ 900 :=
    abs_le.mpr ⟨by omega, by omega⟩
  obtain ⟨two, worth⟩ := number_of_power datum_of_two
  have next : Ieee.worth fraction * Ieee.worth 2 =
      mantissa * 2 ^ exponent / 2 ^ (power + -1) := by
    rw [share.worth_eq, worth, ← sub_eq_add_neg, zpow_sub_one₀ two_ne_zero]
    field_simp
    norm_num
  have double := number_of_mul share.finite two (by
    rw [next, abs_of_nonneg (by positivity)]
    exact has_share positive small near)
  exact ⟨double.1, double.2.trans next, near⟩

omit small in
theorem one_le_fraction_iff : 1 ≤ fraction ↔ power < binaryExponent mantissa exponent := by
  rw [le_iff_worth finite_of_one.1 share.finite, finite_of_one.2, share.worth_eq,
    one_le_share_iff exponent positive]

omit small in
theorem fraction_lt_half_iff : fraction < 0.5 ↔ binaryExponent mantissa exponent < power := by
  obtain ⟨half, worth⟩ := number_of_power datum_of_half
  have value : (2 : ℚ) ^ (-53 + 52 : ℤ) = 1 / 2 := by norm_num
  rw [lt_iff_worth share.finite half, worth, share.worth_eq, value,
    share_lt_half_iff exponent positive]

/-- The exponent is raised to the one sought, if it is below it. -/
theorem raised_of_share :
    ∃ last, Raised fraction power last (max power (binaryExponent mantissa exponent)) ∧
      Share mantissa exponent last (max power (binaryExponent mantissa exponent)) := by
  have more : ∀ fraction power, Share mantissa exponent fraction power →
      (1 ≤ fraction ↔ 0 < (binaryExponent mantissa exponent - power).toNat) := by
    intro fraction power share
    rw [one_le_fraction_iff positive share]
    omega
  have turn : ∀ fraction power, Share mantissa exponent fraction power →
      0 < (binaryExponent mantissa exponent - power).toNat →
        Share mantissa exponent (fraction / 2) (power + 1) ∧
          (binaryExponent mantissa exponent - power).toNat =
            (binaryExponent mantissa exponent - (power + 1)).toNat + 1 := by
    intro fraction power share further
    exact ⟨share_of_half positive small share (by omega), by omega⟩
  have last : power + (binaryExponent mantissa exponent - power).toNat * 1 =
      max power (binaryExponent mantissa exponent) := by omega
  exact last ▸ Loop.reaches more turn share

/-- The exponent is lowered to the one sought, if it is above it. -/
theorem lowered_of_share :
    ∃ last, Lowered fraction power last (min power (binaryExponent mantissa exponent)) ∧
      Share mantissa exponent last (min power (binaryExponent mantissa exponent)) := by
  have more : ∀ fraction power, Share mantissa exponent fraction power →
      (fraction < 0.5 ↔ 0 < (power - binaryExponent mantissa exponent).toNat) := by
    intro fraction power share
    rw [fraction_lt_half_iff positive share]
    omega
  have turn : ∀ fraction power, Share mantissa exponent fraction power →
      0 < (power - binaryExponent mantissa exponent).toNat →
        Share mantissa exponent (fraction * 2) (power + -1) ∧
          (power - binaryExponent mantissa exponent).toNat =
            (power + -1 - binaryExponent mantissa exponent).toNat + 1 := by
    intro fraction power share further
    exact ⟨share_of_double positive small share (by omega), by omega⟩
  have last : power + (power - binaryExponent mantissa exponent).toNat * -1 =
      min power (binaryExponent mantissa exponent) := by omega
  exact last ▸ Loop.reaches more turn share

/-- The fraction that is left has the significand as its first 24 places. -/
theorem significand_of_share (reached : power = binaryExponent mantissa exponent) :
    (fraction * 16777216).toUInt32.toNat = wholePart mantissa (exponent - power + 24) := by
  obtain ⟨wide, worth⟩ := number_of_power datum_of_wide
  have shifted : Ieee.worth fraction * Ieee.worth 16777216 =
      mantissa * 2 ^ exponent / 2 ^ (power - 24) := by
    rw [share.worth_eq, worth, zpow_sub₀ two_ne_zero]
    field_simp
    norm_num
  obtain ⟨finite, product⟩ := number_of_mul share.finite wide (by
    rw [shifted, abs_of_nonneg (by positivity)]
    exact has_share positive small (by rw [reached]; norm_num))
  have value : Ieee.worth (fraction * 16777216) = mantissa * 2 ^ (exponent - power + 24) := by
    rw [product, shifted, mul_div_assoc, ← zpow_sub₀ two_ne_zero]
    congr 2
    ring
  have below : Ieee.worth (fraction * 16777216) < 2 ^ 32 := by
    have notOne := (one_le_share_iff exponent positive power).not.mpr (by omega :
      ¬power < binaryExponent mantissa exponent)
    have factor : (2 : ℚ) ^ (-28 + 52 : ℤ) = 2 ^ 24 := by norm_num
    rw [product, share.worth_eq, worth, factor]
    linarith
  have whole := to_uint32 finite (by rw [value]; positivity) below
  rw [value, ← whole_part_eq] at whole
  exact_mod_cast whole

end Shares

/-! ## Patterns -/

section Values

variable {value : Float} {negative : Bool} {mantissa : ℕ} {exponent : ℤ}
  (number : datum value = .finite negative mantissa exponent) (positive : 0 < mantissa)

include number positive

theorem lt_zero_iff : value < 0 ↔ negative = true := by
  rw [lt_iff_worth (Json.finite_of_number number) number_of_zero.1, number_of_zero.2,
    worth_of_number number, signed_neg_iff negative (by positivity)]

theorem share_of_estimate {estimate : ℤ} (near : |estimate - binaryExponent mantissa exponent| ≤ 900)
    (low : -1074 ≤ estimate) (high : estimate ≤ 1023) :
    Share mantissa exponent (value.abs / powerOfTwo estimate) estimate := by
  have finite := Json.finite_of_number number
  have small : mantissa < 2 ^ 53 := (splits_of_double number).normal.whole_lt
  obtain ⟨unsigned, size⟩ := number_of_abs finite
  obtain ⟨power, divisor⟩ := number_of_power_of_two low high
  have share : worth value.abs / worth (powerOfTwo estimate) =
      mantissa * 2 ^ exponent / 2 ^ estimate := by
    rw [size, divisor, worth_of_number number, abs_signed negative (by positivity)]
  have quotient := number_of_div unsigned power (by rw [divisor]; positivity) (by
    rw [share, abs_of_nonneg (by positivity)]
    exact has_share positive small near)
  exact ⟨quotient.1, quotient.2.trans share, near⟩

theorem pattern_of_share {fraction : Float} {power : ℤ}
    (share : Share mantissa exponent fraction power)
    (reached : power = binaryExponent mantissa exponent) (estimate : ℤ) :
    patternOf (value < 0) fraction power = encodeFrom estimate value := by
  have small : mantissa < 2 ^ 53 := (splits_of_double number).normal.whole_lt
  have significand := significand_of_share positive small share reached
  have sign : decide (value < 0) = negative := by
    rw [Bool.decide_congr (lt_zero_iff number positive), Bool.decide_eq_true]
  simp only [patternOf, encodeFrom, number, if_neg positive.ne', exponent_found, ← reached, sign,
    significand]

/-- The loops on doubles end, and what they leave is the pattern that is computed with integers. -/
theorem encodes_from {estimate : ℤ} (near : |estimate - binaryExponent mantissa exponent| ≤ 900)
    (low : -1074 ≤ estimate) (high : estimate ≤ 1023) :
    Encodes estimate value (encodeFrom estimate value) := by
  have small : mantissa < 2 ^ 53 := (splits_of_double number).normal.whole_lt
  have start := share_of_estimate number positive near low high
  obtain ⟨raised, up, between⟩ := raised_of_share positive small start
  obtain ⟨fraction, down, final⟩ := lowered_of_share positive small between
  have reached : min (max estimate (binaryExponent mantissa exponent))
      (binaryExponent mantissa exponent) = binaryExponent mantissa exponent :=
    min_eq_right (le_max_right _ _)
  exact ⟨raised, _, fraction, _, up, down,
    (pattern_of_share number positive final reached estimate).symm⟩

end Values

/-! ## Searches that do not end -/

/-- Zero is doubled forever. -/
theorem lowered_endless {fraction last : Float} {exponent power : ℤ}
    (finite : isFinite fraction = true) (zero : worth fraction = 0) :
    ¬Lowered fraction exponent last power := by
  refine Loop.endless (fun fraction => isFinite fraction = true ∧ worth fraction = 0) ?_ ?_
    ⟨finite, zero⟩
  · rintro fraction ⟨finite, zero⟩
    obtain ⟨half, worth⟩ := number_of_power datum_of_half
    rw [lt_iff_worth finite half, zero, worth]
    positivity
  · rintro fraction ⟨finite, zero⟩
    obtain ⟨two, -⟩ := number_of_power datum_of_two
    have product : worth fraction * worth 2 = 0 := by rw [zero, zero_mul]
    have double := number_of_mul finite two (by
      rw [product, abs_zero]
      exact double_has_zero)
    exact ⟨double.1, double.2.trans product⟩

/-- Infinity is halved forever. -/
theorem raised_endless {fraction last : Float} {exponent power : ℤ}
    (infinite : datum fraction = .infinite false) : ¬Raised fraction exponent last power := by
  refine Loop.endless (fun fraction => datum fraction = .infinite false) ?_ ?_ infinite
  · intro fraction infinite
    rw [le_iff_unpacked, infinite]
    decide
  · intro fraction infinite
    have half : fraction / 2 =
        packed (UnpackedFloat.div .binary64 fraction.toModel.unpack (2 : Float).toModel.unpack) :=
      rfl
    rw [half, unpack_eq fraction, infinite]
    decide

section Values

variable {value : Float} {negative : Bool} {mantissa : ℕ} {exponent : ℤ}
  (number : datum value = .finite negative mantissa exponent) {divisor : Float} (estimate : ℤ)
  (pattern : ℕ)

include number

/-- Divided by infinity, a number leaves nothing. -/
theorem endless_of_infinite (infinite : datum divisor = .infinite false) :
    ¬EncodesBy divisor estimate value pattern := by
  rintro ⟨raised, risen, fraction, power, up, down, -⟩
  have quotient : value.abs / divisor =
      packed (UnpackedFloat.div .binary64 value.abs.toModel.unpack divisor.toModel.unpack) := rfl
  have vanished : datum (value.abs / divisor) = .finite false 0 (-1074) := by
    have zero : value.abs / divisor = packed (.zero (signOf false)) := by
      rw [quotient, unpack_eq, unpack_eq, datum_of_abs number, infinite, unpacked, unpacked]
      split <;> rfl
    rw [zero]
    decide
  have finite := Json.finite_of_number vanished
  have zero : worth (value.abs / divisor) = 0 := by
    rw [worth_of_number vanished, Nat.cast_zero, zero_mul, signed_zero]
  cases up with
  | done => exact lowered_endless finite zero down
  | turn more =>
      rw [le_iff_worth finite_of_one.1 finite, finite_of_one.2, zero] at more
      exact absurd more (by norm_num)

variable (positive : 0 < mantissa)
include positive

/-- Divided by zero, a number leaves infinity. -/
theorem endless_of_zero : ¬EncodesBy 0 estimate value pattern := by
  rintro ⟨raised, risen, fraction, power, up, -, -⟩
  have quotient : value.abs / 0 =
      packed (UnpackedFloat.div .binary64 value.abs.toModel.unpack (0 : Float).toModel.unpack) :=
    rfl
  have infinity : value.abs / 0 = packed (.infinity (signOf false)) := by
    rw [quotient, unpack_eq, unpack_eq, datum_of_abs number, datum_of_zero, unpacked,
      dif_pos positive]
    rfl
  refine raised_endless ?_ up
  rw [infinity]
  decide

omit estimate pattern in
theorem binary_exponent_bounds :
    -1073 ≤ binaryExponent mantissa exponent ∧ binaryExponent mantissa exponent ≤ 1024 := by
  obtain ⟨normal, finite, -⟩ := splits_of_double number
  have least : Format.double.lowest = -1074 := by decide
  have implicit : Nat.pow 2 Format.double.fractionBits = 2 ^ 52 := rfl
  have top : Format.double.infinity = 2047 * 2 ^ 52 := by decide
  have bits : mantissa.log2 < 53 := (Nat.log2_lt positive.ne').mpr normal.whole_lt
  have above := normal.lowest_le
  have leading := normal.implicit
  rw [Format.pattern, implicit, least, top] at finite
  rw [implicit, least] at leading
  rw [binaryExponent]
  omega

variable {estimate}

/-- Next to the exponent of a number, the loops end exactly if the power of two that the number is
divided by is neither zero nor infinite. -/
theorem encodes_by_iff (low : binaryExponent mantissa exponent ≤ estimate + 1)
    (high : estimate ≤ binaryExponent mantissa exponent + 1)
    (power : divisor = powerOfTwo estimate ∨ estimate < -1022 ∧ divisor = 0) :
    EncodesBy divisor estimate value pattern ↔
      encodeFrom? divisor estimate value = some pattern := by
  have bounds := binary_exponent_bounds number positive
  simp only [encodeFrom?, number, positive.ne', decide_false, Bool.false_or]
  rcases power with rfl | ⟨-, rfl⟩
  · have ends := search_ends_iff (by omega : -1074 ≤ estimate) (by omega)
    rcases le_or_gt estimate 1023 with fits | large
    · have run := encodes_from number positive (abs_le.mpr ⟨by omega, by omega⟩) (by omega) fits
      rw [if_pos (ends.mpr fits), Option.some.injEq]
      exact ⟨run.unique, fun same => same ▸ run⟩
    · have infinite := infinite_power_of_two large (by omega)
      rw [if_neg (ends.not.mpr (by omega))]
      exact iff_of_false (endless_of_infinite number estimate pattern infinite) (by simp)
  · have zero : searchEnds 0 = false := by decide
    rw [zero, if_neg Bool.false_ne_true]
    exact iff_of_false (endless_of_zero number estimate pattern positive) (by simp)

end Values

/-! ## Patterns with an exponent -/

section Decoded

variable {pattern : ℕ} (small : pattern < 2 ^ 32) (present : pattern / 0x1000000 ≠ 0)
include small present

theorem datum_of_decode : datum (decode pattern) =
    .finite (pattern / 0x800000 % 2 == 1) ((0x800000 + pattern % 0x800000) * 2 ^ 29)
      ((pattern / 0x1000000 : ℕ) - 181) := by
  have implicit : Nat.pow 2 Format.double.fractionBits = 2 ^ 52 := rfl
  have least : Format.double.lowest = -1074 := by decide
  have top : Format.double.infinity = 2047 * 2 ^ 52 := by decide
  have normal : Format.double.Normal ((0x800000 + pattern % 0x800000) * 2 ^ 29)
      ((pattern / 0x1000000 : ℕ) - 181) := by
    refine ⟨by omega, ?_, fun _ => ?_⟩ <;> rw [implicit] <;> omega
  have finite : Format.double.pattern ((0x800000 + pattern % 0x800000) * 2 ^ 29)
      ((pattern / 0x1000000 : ℕ) - 181) < Format.double.infinity := by
    rw [Format.pattern, implicit, least, top]
    omega
  rw [decode, if_neg present]
  apply datum_of_normal normal finite
  have places : ((pattern / 0x1000000 : ℕ) : ℤ) - 152 = (pattern / 0x1000000 : ℕ) - 181 + 29 := by
    omega
  rw [places, zpow_add₀ two_ne_zero]
  push_cast
  ring

omit small present in
theorem binary_exponent_of_decode :
    binaryExponent ((0x800000 + pattern % 0x800000) * 2 ^ 29) ((pattern / 0x1000000 : ℕ) - 181) =
      (pattern / 0x1000000 : ℕ) - 128 := by
  have log : ((0x800000 + pattern % 0x800000) * 2 ^ 29).log2 = 52 :=
    (Nat.log2_eq_iff (by omega)).mpr ⟨by omega, by omega⟩
  rw [binaryExponent, log]
  omega

/-- A pattern with an exponent comes back from its number, whatever the estimate. -/
theorem encode_from_decode (estimate : ℤ) : encodeFrom estimate (decode pattern) = pattern := by
  have nonzero : (0x800000 + pattern % 0x800000) * 2 ^ 29 ≠ 0 := by omega
  have exponent : ((pattern / 0x1000000 : ℕ) : ℤ) - 128 + 128 = (pattern / 0x1000000 : ℕ) := by
    omega
  have inRange : ¬(((pattern / 0x1000000 : ℕ) : ℤ) < 1 ∨ 255 < ((pattern / 0x1000000 : ℕ) : ℤ)) := by
    omega
  have whole : wholePart ((0x800000 + pattern % 0x800000) * 2 ^ 29)
      ((pattern / 0x1000000 : ℕ) - 181 - ((pattern / 0x1000000 : ℕ) - 128) + 24) =
        0x800000 + pattern % 0x800000 := by
    have shift : ((pattern / 0x1000000 : ℕ) : ℤ) - 181 - ((pattern / 0x1000000 : ℕ) - 128) + 24 =
        -29 := by omega
    rw [shift, wholePart, if_neg (by decide)]
    exact Nat.mul_div_cancel _ (by decide)
  simp only [encodeFrom, datum_of_decode small present, if_neg nonzero, exponent_found,
    binary_exponent_of_decode, exponent, if_neg inRange, whole, Int.toNat_natCast]
  rw [Nat.min_eq_left (by omega)]
  split
  · rename_i negative
    rw [beq_iff_eq] at negative
    omega
  · rename_i positive
    rw [beq_iff_eq] at positive
    omega

/-- The loops on doubles too leave the pattern that a number was read from, when the logarithm that
they are given is off by at most one. -/
theorem encodes_decode {log : ℤ} (near : |log - Int.log 2 (|worth (decode pattern)|)| ≤ 1) :
    Encodes (log + 1) (decode pattern) pattern := by
  have number := datum_of_decode small present
  have positive : 0 < (0x800000 + pattern % 0x800000) * 2 ^ 29 := by omega
  have exponent := log_eq_binary_exponent ((pattern / 0x1000000 : ℕ) - 181) positive
  rw [worth_of_number number, abs_signed _ (by positivity), abs_le] at near
  rw [binary_exponent_of_decode] at exponent
  have run : Encodes (log + 1) (decode pattern) (encodeFrom (log + 1) (decode pattern)) := by
    refine encodes_from number positive ?_ (by omega) (by omega)
    rw [binary_exponent_of_decode]
    exact abs_le.mpr ⟨by omega, by omega⟩
  rwa [encode_from_decode small present] at run

end Decoded

end Microsoft

end Achievements
