import Mathlib.Algebra.Order.Field.Power
import Mathlib.Algebra.Order.Field.Rat
import Mathlib.Data.Int.Log
import Mathlib.Data.Rat.Floor
import Mathlib.Tactic.FieldSimp
import Mathlib.Tactic.Linarith
import Mathlib.Tactic.Positivity
import Mathlib.Tactic.Ring
import Achievements.Ieee.Format

/-!
# Rounding to a binary format

`Format.nearest` computes with natural numbers. Here it is read as a function of the rational number
that its arguments stand for: it chooses the exponent of the last place from the binary logarithm and
rounds to a multiple of it. So it is monotone, and it takes every number in the rounding interval of a
number of the format to that number.
-/

set_option autoImplicit false

namespace Achievements.Ieee

/-! ## Whole numbers -/

/-- The nearest whole number to a rational number; of two that are equally near, the even one. -/
structure RoundsTo (number : ℚ) (whole : ℕ) : Prop where
  above : (whole : ℚ) - 1 / 2 ≤ number
  below : number ≤ whole + 1 / 2
  even_at_tie : whole % 2 = 1 → (whole : ℚ) - 1 / 2 < number ∧ number < whole + 1 / 2

theorem rounds_le {first second : ℚ} {a b : ℕ} (le : first ≤ second) (roundsFirst : RoundsTo first a)
    (roundsSecond : RoundsTo second b) : a ≤ b := by
  by_contra less
  have gap : (b : ℚ) + 1 ≤ a := by exact_mod_cast not_le.mp less
  have low := roundsFirst.above
  have high := roundsSecond.below
  -- Both lie half way between neighbours, one of which is odd.
  have neighbours : (a : ℚ) = b + 1 := by linarith
  have next : a = b + 1 := by exact_mod_cast neighbours
  rcases Nat.mod_two_eq_zero_or_one a with even | odd
  · have oddBelow := (roundsSecond.even_at_tie (by omega)).2
    linarith
  · have oddAbove := (roundsFirst.even_at_tie odd).1
    linarith

theorem rounds_unique {number : ℚ} {a b : ℕ} (first : RoundsTo number a)
    (second : RoundsTo number b) : a = b :=
  Nat.le_antisymm (rounds_le le_rfl first second) (rounds_le le_rfl second first)

theorem rounds_self (whole : ℕ) : RoundsTo whole whole where
  above := by linarith
  below := by linarith
  even_at_tie := fun _ => ⟨by linarith, by linarith⟩

theorem div_eq_parts (num : ℕ) {den : ℕ} (positive : 0 < den) :
    (num : ℚ) / den = (num / den : ℕ) + (num % den : ℕ) / den := by
  have wide : (0 : ℚ) < den := by exact_mod_cast positive
  have whole : (num : ℚ) = den * (num / den : ℕ) + (num % den : ℕ) := by
    exact_mod_cast (Nat.div_add_mod num den).symm
  rw [whole]
  field_simp

theorem divide_to_even_rounds (num : ℕ) {den : ℕ} (positive : 0 < den) :
    RoundsTo ((num : ℚ) / den) (divideToEven num den) := by
  have wide : (0 : ℚ) < den := by exact_mod_cast positive
  have parts := div_eq_parts num positive
  have small : (num % den : ℕ) / (den : ℚ) < 1 := by
    rw [div_lt_one wide]
    exact_mod_cast Nat.mod_lt num positive
  have nonneg : (0 : ℚ) ≤ (num % den : ℕ) / (den : ℚ) := by positivity
  have twice (count : ℕ) : (2 * count < den ↔ (count : ℚ) / den < 1 / 2) ∧
      (den < 2 * count ↔ 1 / 2 < (count : ℚ) / den) := by
    rw [div_lt_div_iff₀ wide two_pos, div_lt_div_iff₀ two_pos wide, one_mul, mul_comm (count : ℚ)]
    constructor <;> norm_cast
  obtain ⟨less, more⟩ := twice (num % den)
  rw [divideToEven]
  simp only [less, more, parts]
  generalize num / den = quotient
  generalize (num % den : ℕ) / (den : ℚ) = rest at *
  split
  · rename_i nearer
    exact ⟨by linarith, by linarith, fun _ => ⟨by linarith, by linarith⟩⟩
  · split
    · rename_i further
      refine ⟨?_, ?_, fun _ => ⟨?_, ?_⟩⟩ <;> push_cast <;> linarith
    · rename_i notNearer notFurther
      have half : rest = 1 / 2 := le_antisymm (not_lt.mp notFurther) (not_lt.mp notNearer)
      rcases Nat.mod_two_eq_zero_or_one quotient with even | odd
      · rw [even, Nat.add_zero]
        exact ⟨by linarith, by linarith, fun odd => by omega⟩
      · rw [odd]
        refine ⟨?_, ?_, fun odd => by omega⟩ <;> push_cast <;> linarith

/-! ## Binary logarithms -/

theorem log_eq {number : ℚ} (positive : 0 < number) {exponent : ℤ}
    (above : (2 : ℚ) ^ exponent ≤ number) (below : number < (2 : ℚ) ^ (exponent + 1)) :
    Int.log 2 number = exponent := by
  have low := (Int.zpow_le_iff_le_log (b := 2) (by decide) positive).mp (by exact_mod_cast above)
  have high := (Int.lt_zpow_iff_log_lt (b := 2) (by decide) positive).mp (by exact_mod_cast below)
  omega

theorem zpow_log_le {number : ℚ} (positive : 0 < number) :
    (2 : ℚ) ^ Int.log 2 number ≤ number := by
  exact_mod_cast Int.zpow_log_le_self (b := 2) (by decide) positive

theorem lt_zpow_log (number : ℚ) : number < (2 : ℚ) ^ (Int.log 2 number + 1) := by
  exact_mod_cast Int.lt_zpow_succ_log_self (b := 2) (by decide) number

theorem nat_pow_eq_zpow (base : ℕ) {exponent : ℤ} (nonnegative : 0 ≤ exponent) :
    ((Nat.pow base exponent.toNat : ℕ) : ℚ) = (base : ℚ) ^ exponent := by
  obtain ⟨count, rfl⟩ := Int.eq_ofNat_of_zero_le nonnegative
  rw [Int.toNat_natCast, zpow_natCast]
  exact Nat.cast_pow base count

theorem nat_pow_two {exponent : ℤ} (nonnegative : 0 ≤ exponent) :
    ((Nat.pow 2 exponent.toNat : ℕ) : ℚ) = (2 : ℚ) ^ exponent :=
  nat_pow_eq_zpow 2 nonnegative

theorem reaches_iff (num : ℕ) {den : ℕ} (positive : 0 < den) (exponent : ℤ) :
    (if 0 ≤ exponent then decide (den * Nat.pow 2 exponent.toNat ≤ num)
      else decide (den ≤ num * Nat.pow 2 (-exponent).toNat)) = true ↔
    (2 : ℚ) ^ exponent ≤ num / den := by
  rw [le_div_iff₀ (by exact_mod_cast positive)]
  split
  · rename_i nonnegative
    rw [decide_eq_true_iff, ← nat_pow_two nonnegative, mul_comm]
    norm_cast
  · rename_i negative
    rw [decide_eq_true_iff, ← neg_neg exponent, zpow_neg, inv_mul_le_iff₀ (by positivity),
      ← nat_pow_two (by omega), neg_neg, mul_comm]
    norm_cast

theorem floor_log_eq {num den : ℕ} (numPositive : 0 < num) (denPositive : 0 < den) :
    floorLog2 num den = Int.log 2 ((num : ℚ) / den) := by
  have wide : (0 : ℚ) < den := by exact_mod_cast denPositive
  have ratioPositive : (0 : ℚ) < num / den := div_pos (by exact_mod_cast numPositive) wide
  have numLow : (2 : ℚ) ^ (num.log2 : ℤ) ≤ num := by
    exact_mod_cast Nat.log2_self_le numPositive.ne'
  have numHigh : (num : ℚ) < (2 : ℚ) ^ ((num.log2 : ℤ) + 1) := by
    exact_mod_cast Nat.lt_log2_self
  have denLow : (2 : ℚ) ^ (den.log2 : ℤ) ≤ den := by
    exact_mod_cast Nat.log2_self_le denPositive.ne'
  have denHigh : (den : ℚ) < (2 : ℚ) ^ ((den.log2 : ℤ) + 1) := by
    exact_mod_cast Nat.lt_log2_self
  have low : (2 : ℚ) ^ ((num.log2 : ℤ) - den.log2 - 1) ≤ num / den := by
    rw [le_div_iff₀ wide]
    calc (2 : ℚ) ^ ((num.log2 : ℤ) - den.log2 - 1) * den
        ≤ 2 ^ ((num.log2 : ℤ) - den.log2 - 1) * 2 ^ ((den.log2 : ℤ) + 1) := by gcongr
      _ = 2 ^ (num.log2 : ℤ) := by rw [← zpow_add₀ two_ne_zero]; congr 1; ring
      _ ≤ num := numLow
  have high : (num : ℚ) / den < 2 ^ ((num.log2 : ℤ) - den.log2 + 1) := by
    rw [div_lt_iff₀ wide]
    calc (num : ℚ) < 2 ^ ((num.log2 : ℤ) + 1) := numHigh
      _ = 2 ^ ((num.log2 : ℤ) - den.log2 + 1) * 2 ^ (den.log2 : ℤ) := by
        rw [← zpow_add₀ two_ne_zero]; congr 1; ring
      _ ≤ 2 ^ ((num.log2 : ℤ) - den.log2 + 1) * den := by gcongr
  simp only [floorLog2, reaches_iff num denPositive]
  split
  · rename_i above
    exact (log_eq ratioPositive above high).symm
  · rename_i below
    rw [log_eq ratioPositive low (by rw [sub_add_cancel]; exact not_le.mp below)]

/-! ## Rounding -/

namespace Format

variable {format : Format}

/-- The exponent of the last place of the numbers of a format near a rational number. -/
def unit (format : Format) (number : ℚ) : ℤ :=
  max format.lowest (Int.log 2 number - format.fractionBits)

/-- The pattern of `whole · 2 ^ exponent`, if the format has it. -/
def pattern (format : Format) (whole : ℕ) (exponent : ℤ) : ℕ :=
  (exponent - format.lowest).toNat * Nat.pow 2 format.fractionBits + whole

/-- The nearest number of the format is the nearest multiple of its last place. -/
theorem nearest_rounds (format : Format) {num den : ℕ} (numPositive : 0 < num) (denPositive : 0 < den) :
    ∃ whole, RoundsTo ((num : ℚ) / den / 2 ^ format.unit (num / den)) whole ∧
      format.nearest num den =
        min format.infinity (format.pattern whole (format.unit (num / den))) := by
  rw [nearest, if_neg numPositive.ne', floor_log_eq numPositive denPositive, ← Format.unit]
  simp only [pattern]
  generalize format.unit ((num : ℚ) / den) = unit
  split
  · rename_i nonnegative
    refine ⟨_, ?_, rfl⟩
    have scaled : 0 < den * Nat.pow 2 unit.toNat := Nat.mul_pos denPositive (Nat.pow_pos two_pos)
    have rounds := divide_to_even_rounds num scaled
    rw [Nat.cast_mul, nat_pow_two nonnegative, ← div_div] at rounds
    exact rounds
  · rename_i negative
    refine ⟨_, ?_, rfl⟩
    have rounds := divide_to_even_rounds (num * Nat.pow 2 (-unit).toNat) denPositive
    rw [Nat.cast_mul, nat_pow_two (by omega), zpow_neg, ← div_eq_mul_inv, div_right_comm] at rounds
    exact rounds

theorem lowest_le_unit (format : Format) (number : ℚ) : format.lowest ≤ format.unit number :=
  le_max_left _ _

theorem lt_of_unit (format : Format) (number : ℚ) :
    number / 2 ^ format.unit number < 2 ^ ((format.fractionBits : ℤ) + 1) := by
  have below := lt_zpow_log number
  have place : Int.log 2 number + 1 ≤ format.fractionBits + 1 + format.unit number := by
    have := le_max_right format.lowest (Int.log 2 number - format.fractionBits)
    rw [unit]
    omega
  rw [div_lt_iff₀ (by positivity), ← zpow_add₀ two_ne_zero]
  exact below.trans_le (zpow_le_zpow_right₀ one_le_two place)

theorem le_of_unit {number : ℚ} (positive : 0 < number)
    (normal : format.lowest < format.unit number) :
    2 ^ (format.fractionBits : ℤ) ≤ number / 2 ^ format.unit number := by
  have place : format.unit number = Int.log 2 number - format.fractionBits := by
    rw [unit] at normal ⊢
    omega
  rw [le_div_iff₀ (by positivity), ← zpow_add₀ two_ne_zero, place, add_sub_cancel]
  exact zpow_log_le positive

theorem unit_le_unit (format : Format) {first second : ℚ} (positive : 0 < first) (le : first ≤ second) :
    format.unit first ≤ format.unit second := by
  have logs : Int.log 2 first ≤ Int.log 2 second := Int.log_mono_right positive le
  rw [unit, unit]
  omega

theorem significand_le {number : ℚ} {whole : ℕ}
    (rounds : RoundsTo (number / 2 ^ format.unit number) whole) :
    whole ≤ 2 * Nat.pow 2 format.fractionBits := by
  have self := rounds_self (2 * Nat.pow 2 format.fractionBits)
  refine rounds_le ?_ rounds self
  have below := format.lt_of_unit number
  rw [zpow_add_one₀ two_ne_zero, zpow_natCast, mul_comm] at below
  exact_mod_cast below.le

theorem le_significand {number : ℚ} {whole : ℕ} (positive : 0 < number)
    (normal : format.lowest < format.unit number)
    (rounds : RoundsTo (number / 2 ^ format.unit number) whole) :
    Nat.pow 2 format.fractionBits ≤ whole := by
  have self := rounds_self (Nat.pow 2 format.fractionBits)
  refine rounds_le ?_ self rounds
  have above := le_of_unit positive normal
  rw [zpow_natCast] at above
  exact_mod_cast above

theorem pattern_le_pattern {first second : ℚ} {a b : ℕ} (positive : 0 < first)
    (le : first ≤ second) (roundsFirst : RoundsTo (first / 2 ^ format.unit first) a)
    (roundsSecond : RoundsTo (second / 2 ^ format.unit second) b) :
    format.pattern a (format.unit first) ≤ format.pattern b (format.unit second) := by
  have lowFirst := format.lowest_le_unit first
  rcases eq_or_lt_of_le (format.unit_le_unit positive le) with same | less
  · rw [← same] at roundsSecond ⊢
    have scaled : first / 2 ^ format.unit first ≤ second / 2 ^ format.unit first := by gcongr
    exact Nat.add_le_add_left (rounds_le scaled roundsFirst roundsSecond) _
  · have most := significand_le roundsFirst
    have least := le_significand (positive.trans_le le) (lowFirst.trans_lt less) roundsSecond
    have places : (format.unit first - format.lowest).toNat + 1 ≤
        (format.unit second - format.lowest).toNat := by omega
    calc format.pattern a (format.unit first)
        ≤ ((format.unit first - format.lowest).toNat + 1) * Nat.pow 2 format.fractionBits +
            Nat.pow 2 format.fractionBits := by rw [pattern, Nat.add_one_mul]; omega
      _ ≤ format.pattern b (format.unit second) :=
        Nat.add_le_add (Nat.mul_le_mul_right _ places) least

/-- Rounding is monotone. -/
theorem nearest_le_nearest (format : Format) {a b c d : ℕ} (bPositive : 0 < b) (dPositive : 0 < d)
    (le : (a : ℚ) / b ≤ c / d) : format.nearest a b ≤ format.nearest c d := by
  rcases Nat.eq_zero_or_pos a with zero | aPositive
  · rw [zero, nearest, if_pos rfl]
    exact Nat.zero_le _
  · have positive : (0 : ℚ) < a / b :=
      div_pos (by exact_mod_cast aPositive) (by exact_mod_cast bPositive)
    have cPositive : 0 < c := by
      apply Nat.pos_of_ne_zero
      rintro rfl
      rw [Nat.cast_zero, zero_div] at le
      exact absurd le (not_le.mpr positive)
    obtain ⟨first, roundsFirst, nearestFirst⟩ := format.nearest_rounds aPositive bPositive
    obtain ⟨second, roundsSecond, nearestSecond⟩ := format.nearest_rounds cPositive dPositive
    rw [nearestFirst, nearestSecond]
    exact min_le_min_left _ (pattern_le_pattern positive le roundsFirst roundsSecond)

/-! ## Rounding intervals -/

/-- A number of the format without redundant places: the implicit bit is set above the smallest
numbers. -/
structure Normal (format : Format) (whole : ℕ) (exponent : ℤ) : Prop where
  lowest_le : format.lowest ≤ exponent
  whole_lt : whole < 2 * Nat.pow 2 format.fractionBits
  implicit : exponent ≠ format.lowest → Nat.pow 2 format.fractionBits ≤ whole

/-- How far below a number its rounding interval reaches, in units of its last place. -/
def reach (format : Format) (whole : ℕ) (exponent : ℤ) : ℚ :=
  if whole = Nat.pow 2 format.fractionBits ∧ exponent ≠ format.lowest then 1 / 4 else 1 / 2

/-- A rational number in the rounding interval of `whole · 2 ^ exponent`. -/
structure Near (format : Format) (whole : ℕ) (exponent : ℤ) (number : ℚ) : Prop where
  above : ((whole : ℚ) - format.reach whole exponent) * 2 ^ exponent ≤ number
  below : number ≤ ((whole : ℚ) + 1 / 2) * 2 ^ exponent
  open_if_odd : whole % 2 = 1 →
    ((whole : ℚ) - format.reach whole exponent) * 2 ^ exponent < number ∧
      number < ((whole : ℚ) + 1 / 2) * 2 ^ exponent

theorem reach_le (format : Format) (whole : ℕ) (exponent : ℤ) :
    format.reach whole exponent ≤ 1 / 2 := by
  rw [reach]
  split <;> norm_num

theorem reach_pos (format : Format) (whole : ℕ) (exponent : ℤ) : 0 < format.reach whole exponent := by
  rw [reach]
  split <;> norm_num

theorem near_self (format : Format) (whole : ℕ) (exponent : ℤ) :
    format.Near whole exponent (whole * 2 ^ exponent) := by
  have place : (0 : ℚ) < 2 ^ exponent := by positivity
  have reach := format.reach_pos whole exponent
  have above : ((whole : ℚ) - format.reach whole exponent) * 2 ^ exponent < whole * 2 ^ exponent :=
    mul_lt_mul_of_pos_right (by linarith) place
  have below : (whole : ℚ) * 2 ^ exponent < (whole + 1 / 2) * 2 ^ exponent :=
    mul_lt_mul_of_pos_right (by linarith) place
  exact ⟨above.le, below.le, fun _ => ⟨above, below⟩⟩

variable {whole : ℕ} {exponent : ℤ} {number : ℚ}

theorem pos_of_near (positive : 0 < whole) (near : format.Near whole exponent number) : 0 < number := by
  have least : (1 : ℚ) ≤ whole := by exact_mod_cast positive
  have reach := format.reach_le whole exponent
  have above : 0 < ((whole : ℚ) - format.reach whole exponent) * 2 ^ exponent :=
    mul_pos (by linarith) (by positivity)
  exact above.trans_le near.above

theorem rounds_of_near (near : format.Near whole exponent number) :
    RoundsTo (number / 2 ^ exponent) whole := by
  have place : (0 : ℚ) < 2 ^ exponent := by positivity
  have reach := format.reach_le whole exponent
  have above := (le_div_iff₀ place).mpr near.above
  have below := (div_le_iff₀ place).mpr near.below
  refine ⟨by linarith, below, fun odd => ?_⟩
  obtain ⟨strictAbove, strictBelow⟩ := near.open_if_odd odd
  have above := (lt_div_iff₀ place).mpr strictAbove
  have below := (div_lt_iff₀ place).mpr strictBelow
  exact ⟨by linarith, below⟩

theorem unit_eq (lowest_le : format.lowest ≤ exponent) (positive : 0 < number)
    (reached : exponent ≠ format.lowest → 2 ^ (format.fractionBits + exponent) ≤ number)
    (below : number < 2 ^ (format.fractionBits + exponent + 1)) : format.unit number = exponent := by
  have high := (Int.lt_zpow_iff_log_lt (b := 2) (by decide) positive).mp (by exact_mod_cast below)
  rw [unit]
  rcases eq_or_ne exponent format.lowest with same | other
  · omega
  · have log := log_eq positive (reached other) below
    omega

theorem pow_fraction_eq (format : Format) (exponent : ℤ) :
    (2 : ℚ) ^ (format.fractionBits + exponent) =
      (Nat.pow 2 format.fractionBits : ℕ) * 2 ^ exponent := by
  rw [zpow_add₀ two_ne_zero, zpow_natCast]
  congr 1
  exact (Nat.cast_pow 2 format.fractionBits).symm

theorem lt_of_near (normal : format.Normal whole exponent)
    (near : format.Near whole exponent number) :
    number < 2 ^ (format.fractionBits + exponent + 1) := by
  have place : (0 : ℚ) < 2 ^ exponent := by positivity
  have small : (whole : ℚ) + 1 ≤ 2 * (Nat.pow 2 format.fractionBits : ℕ) := by
    exact_mod_cast normal.whole_lt
  rw [zpow_add_one₀ two_ne_zero, pow_fraction_eq]
  calc number ≤ ((whole : ℚ) + 1 / 2) * 2 ^ exponent := near.below
    _ < (2 * (Nat.pow 2 format.fractionBits : ℕ)) * 2 ^ exponent :=
      mul_lt_mul_of_pos_right (by linarith) place
    _ = (Nat.pow 2 format.fractionBits : ℕ) * 2 ^ exponent * 2 := by ring

/-- Below the implicit bit only the least significand is near, and the place is finer there. -/
theorem rounds_up_of_near (normal : format.Normal whole exponent)
    (near : format.Near whole exponent number) (other : exponent ≠ format.lowest)
    (under : number < 2 ^ (format.fractionBits + exponent)) :
    whole = Nat.pow 2 format.fractionBits ∧
      RoundsTo (number / 2 ^ (exponent - 1)) (2 * Nat.pow 2 format.fractionBits) := by
  have place : (0 : ℚ) < 2 ^ exponent := by positivity
  have least := normal.implicit other
  have above := near.above
  rw [pow_fraction_eq] at under
  have close : (whole : ℚ) - format.reach whole exponent < (Nat.pow 2 format.fractionBits : ℕ) :=
    lt_of_mul_lt_mul_right (above.trans_lt under) place.le
  have equal : whole = Nat.pow 2 format.fractionBits := by
    have reach := format.reach_le whole exponent
    have next : (whole : ℚ) < (Nat.pow 2 format.fractionBits + 1 : ℕ) := by
      push_cast at close ⊢
      linarith
    have := Nat.cast_lt.mp next
    omega
  refine ⟨equal, ?_⟩
  have quarter : format.reach whole exponent = 1 / 4 := by rw [reach, if_pos ⟨equal, other⟩]
  rw [quarter, equal, ← le_div_iff₀ place] at above
  rw [← div_lt_iff₀ place] at under
  have finer : number / 2 ^ (exponent - 1) = 2 * (number / 2 ^ exponent) := by
    rw [zpow_sub_one₀ two_ne_zero]
    field_simp
  rw [finer]
  refine ⟨?_, ?_, fun odd => by omega⟩ <;> push_cast at above under ⊢ <;> linarith

/-- Every number in the rounding interval of a number of the format is rounded to it. -/
theorem nearest_of_near {num den : ℕ} (numPositive : 0 < num) (denPositive : 0 < den)
    (normal : format.Normal whole exponent) (near : format.Near whole exponent (num / den)) :
    format.nearest num den = min format.infinity (format.pattern whole exponent) := by
  have positive : (0 : ℚ) < num / den :=
    div_pos (by exact_mod_cast numPositive) (by exact_mod_cast denPositive)
  obtain ⟨significand, rounds, rounded⟩ := format.nearest_rounds numPositive denPositive
  have below := lt_of_near normal near
  -- The interval of a power of two reaches below it, where the last place is half as large.
  rw [rounded]
  by_cases reached : exponent ≠ format.lowest → (2 : ℚ) ^ (format.fractionBits + exponent) ≤ num / den
  · rw [unit_eq normal.lowest_le positive reached below] at rounds ⊢
    rw [rounds_unique rounds (rounds_of_near near)]
  · obtain ⟨other, under⟩ := Classical.not_imp.mp reached
    obtain ⟨least, up⟩ := rounds_up_of_near normal near other (not_le.mp under)
    have finer : format.unit (num / den) = exponent - 1 := by
      have lowest := normal.lowest_le
      refine unit_eq (by omega) positive (fun _ => ?_) ?_
      · have implicit : (1 : ℚ) ≤ (Nat.pow 2 format.fractionBits : ℕ) := by
          exact_mod_cast Nat.one_le_two_pow
        have above := up.above
        push_cast at above
        rw [pow_fraction_eq, ← le_div_iff₀ (by positivity)]
        linarith
      · have same : (format.fractionBits : ℤ) + (exponent - 1) + 1 = format.fractionBits + exponent := by
          ring
        rw [same]
        exact not_le.mp under
    rw [finer] at rounds ⊢
    rw [rounds_unique rounds up, least]
    congr 1
    have places : (exponent - format.lowest).toNat = (exponent - 1 - format.lowest).toNat + 1 := by
      have lowest := normal.lowest_le
      omega
    rw [pattern, pattern, places]
    ring

end Format

end Achievements.Ieee
