import Achievements.Proofs.Json.Leaves

/-!
# The decimal that written digits are taken for

A reader gathers digits as long as they fit 64 bits. The digits before the point of a written number
always fit, so that nothing is misplaced: the decimal that the digits are taken for is the one that was
written, or less than it where places after the point were passed over.
-/

set_option autoImplicit false

namespace Achievements.Decimal

/-- The number that digits spell after a number already read. -/
def spelled (start : ℕ) (digits : List Char) : ℕ :=
  digits.foldl (fun number c => 10 * number + (c.toNat - 48)) start

theorem spelled_append (start : ℕ) (first second : List Char) :
    spelled start (first ++ second) = spelled (spelled start first) second :=
  List.foldl_append

theorem spelled_eq (start : ℕ) (digits : List Char) :
    spelled start digits = start * 10 ^ digits.length + spelled 0 digits := by
  induction digits generalizing start with
  | nil => simp [spelled]
  | cons c digits ih =>
      -- The first digit is taken with the number before it, and alone.
      have first := ih (10 * start + (c.toNat - 48))
      have alone := ih (10 * 0 + (c.toNat - 48))
      simp only [spelled, List.foldl_cons, List.length_cons] at *
      rw [first, alone, Nat.pow_succ]
      ring

theorem spelled_zeros (start count : ℕ) :
    spelled start (List.replicate count '0') = start * 10 ^ count := by
  induction count generalizing start with
  | zero => simp [spelled]
  | succ count ih =>
      have next := ih (10 * start + ('0'.toNat - 48))
      simp only [spelled, List.replicate_succ, List.foldl_cons] at *
      rw [next, Nat.pow_succ]
      simp
      ring

theorem spelled_decimal (number : ℕ) : spelled 0 (Text.decimal number) = number := by
  induction number using Nat.strongRecOn with
  | ind number ih =>
      have digit : ∀ digit < 10, (Nat.digitChar digit).toNat - 48 = digit := by decide
      rw [Text.decimal, Nat.toDigits_eq_if (by decide)]
      split
      · rename_i small
        simp [spelled, digit number small]
      · rename_i large
        have before := ih (number / 10) (Nat.div_lt_self (by omega) (by decide))
        rw [Text.decimal] at before
        rw [spelled_append, before]
        simp only [spelled, List.foldl_cons, List.foldl_nil, digit _ (Nat.mod_lt number (by decide))]
        omega

theorem pow_length_le {number : ℕ} (positive : 0 < number) :
    10 ^ (Text.decimal number).length ≤ 10 * number := by
  induction number using Nat.strongRecOn with
  | ind number ih =>
      rw [Text.decimal, Nat.toDigits_eq_if (by decide)]
      split
      · rw [List.length_singleton]
        omega
      · rename_i large
        have before := ih (number / 10) (Nat.div_lt_self positive (by decide)) (by omega)
        rw [Text.decimal] at before
        rw [List.length_append, List.length_singleton, Nat.pow_succ]
        omega

theorem spelled_lt {digits : List Char} (areDigits : ∀ c ∈ digits, c.isDigit = true) :
    spelled 0 digits < 10 ^ digits.length := by
  induction digits with
  | nil => simp [spelled]
  | cons c digits ih =>
      obtain ⟨isDigit, others⟩ := List.forall_mem_cons.mp areDigits
      have rest := ih others
      have small : c.toNat - 48 ≤ 9 := by
        simp only [Char.isDigit, Bool.and_eq_true, decide_eq_true_eq] at isDigit
        have := UInt32.le_iff_toNat_le.mp isDigit.2
        change c.toNat ≤ 57 at this
        omega
      have first := spelled_eq (10 * 0 + (c.toNat - 48)) digits
      have scaled := Nat.mul_le_mul_right (10 ^ digits.length) small
      simp only [spelled, List.foldl_cons, List.length_cons, Nat.mul_zero, Nat.zero_add] at *
      rw [first, Nat.pow_succ]
      omega

theorem le_spelled (start : ℕ) (digits : List Char) : start ≤ spelled start digits := by
  rw [spelled_eq]
  exact Nat.le_add_right_of_le (Nat.le_mul_of_pos_right start (Nat.pow_pos (by decide)))

theorem take_fitting_all {start : ℕ} {digits : List Char}
    (fits : spelled start digits ≤ Text.limit64) :
    takeFitting start digits = (spelled start digits, []) := by
  induction digits generalizing start with
  | nil => rfl
  | cons c digits ih =>
      have next : 10 * start + (c.toNat - 48) ≤ Text.limit64 := (le_spelled _ digits).trans fits
      rw [takeFitting]
      simp only [if_pos next]
      exact ih fits

theorem take_fitting_some {start : ℕ} (digits : List Char) (fits : start ≤ Text.limit64) :
    ∃ taken, digits = taken ++ (takeFitting start digits).2 ∧
      (takeFitting start digits).1 = spelled start taken ∧
      (takeFitting start digits).1 ≤ Text.limit64 := by
  induction digits generalizing start with
  | nil => exact ⟨[], rfl, rfl, fits⟩
  | cons c digits ih =>
      rw [takeFitting]
      split
      · rename_i next
        obtain ⟨taken, split, number, small⟩ := ih next
        exact ⟨c :: taken, by rw [List.cons_append, ← split], number, small⟩
      · exact ⟨[], rfl, rfl, fits⟩

variable {whole fraction : List Char}

theorem of_digits_all (exponent : ℤ) (fits : spelled 0 (whole ++ fraction) ≤ Text.limit64) :
    ofDigits whole fraction exponent =
      ⟨spelled 0 (whole ++ fraction), exponent - fraction.length⟩ := by
  rw [spelled_append] at fits ⊢
  have first : takeFitting 0 whole = (spelled 0 whole, []) :=
    take_fitting_all ((le_spelled _ fraction).trans fits)
  rw [ofDigits, first]
  simp only [take_fitting_all fits, List.length_nil, Nat.sub_zero, Nat.cast_zero, add_zero]

/-- Places that do not fit are passed over, which makes the number less. -/
theorem of_digits_le (exponent : ℤ) (fits : spelled 0 whole ≤ Text.limit64) :
    (ofDigits whole fraction exponent).significand ≤ Text.limit64 ∧
      (ofDigits whole fraction exponent).toRat ≤
        spelled 0 (whole ++ fraction) * (10 : ℚ) ^ (exponent - fraction.length) := by
  have first : takeFitting 0 whole = (spelled 0 whole, []) := take_fitting_all fits
  obtain ⟨taken, split, number, small⟩ := take_fitting_some fraction fits
  rw [ofDigits, first]
  simp only [List.length_nil, Nat.cast_zero, add_zero, toRat]
  generalize takeFitting (spelled 0 whole) fraction = parts at *
  refine ⟨small, ?_⟩
  have lengths : fraction.length = taken.length + parts.2.length := by
    rw [← List.length_append, ← split]
  have spelledAll : parts.1 * 10 ^ parts.2.length ≤ spelled 0 (whole ++ fraction) := by
    rw [spelled_append, split, spelled_append, ← number, spelled_eq parts.1]
    exact Nat.le_add_right _ _
  have places : exponent - ((fraction.length - parts.2.length : ℕ) : ℤ) =
      parts.2.length + (exponent - fraction.length) := by
    omega
  rw [places, zpow_add₀ (by norm_num), ← mul_assoc, zpow_natCast]
  gcongr
  exact_mod_cast spelledAll

end Achievements.Decimal

namespace Achievements.Json.Numeral

open Decimal

/-- The decimal that a number stands for, its sign apart. -/
def decimal (numeral : Numeral) : Decimal :=
  ⟨spelled 0 (numeral.whole ++ numeral.fraction),
    numeral.exponent.getD 0 - numeral.fraction.length⟩

/-- The rational number that a number stands for, its sign apart. -/
def toRat (numeral : Numeral) : ℚ :=
  numeral.decimal.toRat

/-- The decimal that the digits are taken for. -/
def taken (numeral : Numeral) : Decimal :=
  .ofDigits numeral.whole numeral.fraction (numeral.exponent.getD 0)

theorem taken_eq {numeral : Numeral} (fits : numeral.decimal.significand ≤ Text.limit64) :
    numeral.taken = numeral.decimal :=
  of_digits_all _ fits

theorem to_rat_of_positional (negative : Bool) (significand : ℕ) (exponent : ℤ) :
    (positional negative (Text.decimal significand) exponent).toRat =
      (⟨significand, exponent⟩ : Decimal).toRat := by
  have number := spelled_decimal significand
  have zero (start : ℕ) : spelled start ['0'] = 10 * start := rfl
  unfold positional toRat decimal Decimal.toRat
  split
  · rename_i nonnegative
    obtain ⟨count, rfl⟩ := Int.eq_ofNat_of_zero_le nonnegative
    rw [spelled_append, spelled_append, number, Int.toNat_natCast, spelled_zeros, zero]
    simp only [Option.getD_none, List.length_singleton, Nat.cast_one, zero_sub, zpow_neg_one,
      zpow_natCast]
    push_cast
    field_simp
  · rename_i isNegative
    simp only
    split
    · rename_i fewer
      have places : (0 : ℤ) - ((Text.decimal significand).drop
          ((Text.decimal significand).length - (-exponent).toNat)).length = exponent := by
        rw [List.length_drop]
        omega
      rw [List.take_append_drop, number, Option.getD_none, places]
    · rename_i more
      have places : (0 : ℤ) - (List.replicate ((-exponent).toNat - (Text.decimal significand).length)
          '0' ++ Text.decimal significand).length = exponent := by
        rw [List.length_append, List.length_replicate]
        omega
      rw [spelled_append, spelled_append, zero, Nat.mul_zero, spelled_zeros, Nat.zero_mul, number,
        Option.getD_none, places]

theorem to_rat_of_exponential (negative : Bool) (significand : ℕ) (magnitude : ℤ) :
    (exponential negative (Text.decimal significand) magnitude).toRat =
      (⟨significand, magnitude + 1 - (Text.decimal significand).length⟩ : Decimal).toRat := by
  have some : 0 < (Text.decimal significand).length := List.length_pos_iff.mpr Nat.toDigits_ne_nil
  have places : magnitude - ((Text.decimal significand).drop 1).length =
      magnitude + 1 - (Text.decimal significand).length := by
    rw [List.length_drop]
    omega
  rw [exponential, toRat, decimal, List.take_append_drop, spelled_decimal, Option.getD_some, places]

theorem to_rat_of_decimal (negative : Bool) (decimal : Decimal) :
    (ofDecimal negative decimal).toRat = decimal.toRat := by
  rw [ofDecimal]
  split
  · rw [to_rat_of_positional]
  · rw [to_rat_of_exponential, sub_add_cancel, add_sub_cancel_right]

theorem spelled_short_fits {digits : List Char} (areDigits : ∀ c ∈ digits, c.isDigit = true)
    (short : digits.length ≤ 16) : spelled 0 digits ≤ Text.limit64 := by
  have small := spelled_lt areDigits
  have bound : 10 ^ digits.length ≤ 10 ^ 16 := Nat.pow_le_pow_right (by decide) short
  rw [Text.limit64]
  omega

theorem whole_of_decimal_fits (negative : Bool) (decimal : Decimal) :
    spelled 0 (ofDecimal negative decimal).whole ≤ Text.limit64 := by
  have areDigits : ∀ c ∈ Text.decimal decimal.significand, c.isDigit = true :=
    fun _ member => is_digit_of_mem_decimal member
  rw [ofDecimal]
  split
  · rename_i place
    rw [positional]
    split
    · rename_i nonnegative
      rcases place with zero | small
      · rw [spelled_append, spelled_decimal, spelled_zeros, zero, Nat.zero_mul]
        exact Nat.zero_le _
      · apply spelled_short_fits
        · refine List.forall_mem_append.mpr ⟨areDigits, fun c member => ?_⟩
          rw [List.eq_of_mem_replicate member]
          rfl
        · simp only [realLayout, Bool.and_eq_true, decide_eq_true_eq] at small
          rw [List.length_append, List.length_replicate]
          omega
    · simp only
      split
      · rename_i fewer
        apply spelled_short_fits (fun c member => areDigits c (List.mem_of_mem_take member))
        rw [List.length_take]
        rcases place with zero | small
        · rw [zero]
          exact (Nat.min_le_right _ _).trans (show 1 ≤ 16 by decide)
        · simp only [realLayout, Bool.and_eq_true, decide_eq_true_eq] at small
          omega
      · exact (show spelled 0 ['0'] ≤ Text.limit64 by decide)
  · apply spelled_short_fits (fun c member => areDigits c (List.mem_of_mem_take member))
    rw [List.length_take]
    omega

end Achievements.Json.Numeral
