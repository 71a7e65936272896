import Achievements.Formula.Reader
import Achievements.Formula.Writer
import Achievements.Proofs.Decimal.Magnitude

/-!
# Numbers that have a literal

A formula writes its constants in the shortest form, but a literal is digits with at most one point
among them. So the texts of doubles with an exponent are no literals, nor are those of infinite ones,
and the smallest integer has digits that do not fit once its sign is taken off. Every other number is
read back from its text, since its shortest decimal is rounded to it.
-/

set_option autoImplicit false

namespace Achievements

open Ieee

/-! ## Decimals near a double -/

namespace Decimal

variable {value : Float} {negative : Bool} {whole : ℕ} {exponent : ℤ}

/-- The least double is half a place away from zero. -/
theorem least_le_of_near (number : datum value = .finite negative whole exponent)
    (positive : 0 < whole) {size : ℚ} (near : Format.double.Near whole exponent size) :
    (2 : ℚ) ^ (-1075 : ℤ) ≤ size := by
  have lowest : (-1074 : ℤ) ≤ exponent := (splits_of_double number).normal.lowest_le
  have one : (1 : ℚ) ≤ whole := by exact_mod_cast positive
  have reach := Format.double.reach_le whole exponent
  calc (2 : ℚ) ^ (-1075 : ℤ) = 1 / 2 * 2 ^ (-1074 : ℤ) := by
        rw [show (-1075 : ℤ) = -1074 - 1 from rfl, zpow_sub_one₀ two_ne_zero]
        ring
    _ ≤ (whole - Format.double.reach whole exponent) * 2 ^ exponent :=
      mul_le_mul (by linarith) (zpow_le_zpow_right₀ one_le_two lowest) (by positivity)
        (by linarith)
    _ ≤ size := near.above

/-- A decimal that is answered early is below that. -/
theorem lt_least_of_early {decimal : Decimal}
    (early : decimal.exponent + decimal.significand.log2 < -400) :
    decimal.toRat < 2 ^ (-1075 : ℤ) := by
  have bits : (decimal.significand : ℚ) < 10 ^ (decimal.significand.log2 + 1) := by
    have log : decimal.significand < 2 ^ (decimal.significand.log2 + 1) := Nat.lt_log2_self
    exact_mod_cast log.trans_le (Nat.pow_le_pow_left (by decide) _)
  have powers : 2 ^ 1075 < 10 ^ 400 := by decide +kernel
  have bound : (10 : ℚ) ^ (-400 : ℤ) < 2 ^ (-1075 : ℤ) := by
    rw [zpow_neg, zpow_neg, inv_lt_inv₀ (by positivity) (by positivity)]
    exact_mod_cast powers
  calc decimal.toRat < 10 ^ (decimal.significand.log2 + 1) * 10 ^ decimal.exponent :=
        mul_lt_mul_of_pos_right bits (by positivity)
    _ = 10 ^ (((decimal.significand.log2 + 1 : ℕ) : ℤ) + decimal.exponent) := by
        rw [zpow_add₀ (by norm_num), zpow_natCast]
    _ ≤ 10 ^ (-400 : ℤ) := zpow_le_zpow_right₀ (by norm_num) (by omega)
    _ < 2 ^ (-1075 : ℤ) := bound

/-- A decimal fraction near a double is read as that double. -/
theorem to_double_of_near (number : datum value = .finite negative whole exponent)
    (positive : 0 < whole) {decimal : Decimal} (fraction : decimal.exponent ≤ 0)
    (near : Format.double.Near whole exponent decimal.toRat) : toDouble negative decimal = value := by
  have digits := significand_pos (Format.pos_of_near positive near)
  have large : ¬decimal.exponent + decimal.significand.log2 < -400 := fun early =>
    not_lt.mpr (least_le_of_near number positive near) (lt_least_of_early early)
  rw [toDouble]
  simp only [if_neg digits.ne', if_neg (show ¬400 < decimal.exponent by omega), if_neg large]
  rw [toRat] at near
  split
  · rename_i nonnegative
    have power : ((10 ^ decimal.exponent.toNat : ℕ) : ℚ) = ((10 : ℕ) : ℚ) ^ decimal.exponent :=
      nat_pow_eq_zpow 10 nonnegative
    apply double_of_near number (Nat.mul_pos digits (Nat.pow_pos (by decide))) Nat.one_pos
    rw [Nat.cast_mul, power, Nat.cast_one, div_one]
    exact near
  · have power : ((10 ^ (-decimal.exponent).toNat : ℕ) : ℚ) = ((10 : ℕ) : ℚ) ^ (-decimal.exponent) :=
      nat_pow_eq_zpow 10 (by omega)
    apply double_of_near number digits (Nat.pow_pos (by decide))
    rw [power, zpow_neg, div_inv_eq_mul]
    exact near

theorem to_double_of_zero (number : datum value = .finite negative 0 exponent) {decimal : Decimal}
    (zero : decimal.toRat = 0) : toDouble negative decimal = value := by
  have power : (10 : ℚ) ^ decimal.exponent ≠ 0 := by positivity
  have digits : decimal.significand = 0 := by
    rw [toRat, mul_eq_zero, or_iff_left power] at zero
    exact_mod_cast zero
  rw [toDouble, if_pos digits]
  exact double_of_zero number

end Decimal

namespace Formula

open Text Decimal

/-! ## Texts of numbers -/

theorem read_digits_spelled (start : ℕ) {digits : List Char}
    (areDigits : ∀ c ∈ digits, c.isDigit = true) :
    readDigits 10 start digits = some (spelled start digits) := by
  induction digits generalizing start with
  | nil => rfl
  | cons c digits ih =>
      obtain ⟨isDigit, others⟩ := List.forall_mem_cons.mp areDigits
      simp only [Char.isDigit, Bool.and_eq_true, decide_eq_true_eq, UInt32.le_iff_toNat_le] at isDigit
      have value : digitValue? c = some (c.toNat - 48) := if_pos isDigit
      have lower : 48 ≤ c.toNat := isDigit.1
      have upper : c.toNat ≤ 57 := isDigit.2
      have small : c.toNat - 48 < 10 := by omega
      rw [readDigits, value]
      simp only [if_pos small, ih _ others, Nat.mul_comm start]
      rfl

/-- Digits with a point or the mark of an exponent among them. -/
structure Marked (digits : List Char) (mark : Char) (rest : List Char) : Prop where
  digits_ne_nil : digits ≠ []
  are_digits : ∀ c ∈ digits, c.isDigit = true
  is_mark : mark = '.' ∨ mark = 'e'
  rest_ne_nil : rest ≠ []
  rest_chars : ∀ c ∈ rest, c.isDigit = true ∨ c ∈ ['.', 'e', '-']
  last_digit : ∀ c ∈ rest.getLast?, c.isDigit = true

namespace Marked

variable {digits rest : List Char} {mark : Char} (marked : Marked digits mark rest)

include marked

theorem chars : ∀ c ∈ digits ++ mark :: rest, c.isDigit = true ∨ c ∈ ['.', 'e', '-'] := by
  intro c member
  rcases List.mem_append.mp member with inDigits | later
  · exact .inl (marked.are_digits c inDigits)
  · rcases List.mem_cons.mp later with rfl | inRest
    · rcases marked.is_mark with rfl | rfl <;> exact .inr (by decide)
    · exact marked.rest_chars c inRest

theorem head_digit : ∀ c ∈ (digits ++ mark :: rest).head?, c.isDigit = true := by
  intro c first
  rw [List.head?_append_of_ne_nil _ marked.digits_ne_nil] at first
  exact marked.are_digits c (List.mem_of_mem_head? first)

theorem unsigned : ∀ c ∈ (digits ++ mark :: rest).head?, c ≠ '-' ∧ c ≠ '+' := by
  intro c first
  have digit := marked.head_digit c first
  constructor <;> (rintro rfl; cases digit)

theorem last_digit_of_text : ∀ c ∈ (digits ++ mark :: rest).getLast?, c.isDigit = true := by
  intro c last
  rw [← List.singleton_append, ← List.append_assoc, last_of_append _ marked.rest_ne_nil] at last
  exact marked.last_digit c last

theorem after_point {whole : List Char} (nonempty : whole ≠ [])
    (areDigits : ∀ c ∈ whole, c.isDigit = true) : Marked whole '.' (digits ++ mark :: rest) where
  digits_ne_nil := nonempty
  are_digits := areDigits
  is_mark := .inl rfl
  rest_ne_nil := List.append_ne_nil_of_left_ne_nil marked.digits_ne_nil _
  rest_chars := marked.chars
  last_digit := marked.last_digit_of_text

end Marked

theorem digit_of_mem_decimal (number : ℕ) : ∀ c ∈ decimal number, c.isDigit = true :=
  fun _ member => Json.is_digit_of_mem_decimal member

/-- Positional notation: digits on both sides of a point. -/
theorem positional_text {significand : ℕ} {exponent : ℤ} (zero : significand = 0 → exponent = 0) :
    ∃ whole fraction, realLayout.writePositional (decimal significand) exponent =
        whole ++ '.' :: fraction ∧
      Marked whole '.' fraction ∧ (∀ c ∈ fraction, c.isDigit = true) ∧
      (⟨spelled 0 (whole ++ fraction), -(fraction.length : ℤ)⟩ : Decimal).toRat =
        (⟨significand, exponent⟩ : Decimal).toRat := by
  have nonempty : decimal significand ≠ [] := Nat.toDigits_ne_nil
  have text := Json.Numeral.text_of_positional false nonempty exponent
  have value := Json.Numeral.to_rat_of_positional false significand exponent
  obtain ⟨fraction, plain, sign⟩ := Json.Numeral.parts_of_positional false nonempty exponent
  have formed : (Json.Numeral.positional false (decimal significand) exponent).Formed := by
    rcases Nat.eq_zero_or_pos significand with none | positive
    · rw [none, zero none]
      constructor <;> simp [Json.Numeral.positional, decimal]
    · exact Json.Numeral.formed_of_positional false positive exponent
  generalize Json.Numeral.positional false (decimal significand) exponent = numeral at *
  obtain ⟨negative, whole, places, power⟩ := numeral
  simp only at plain sign fraction
  subst plain sign
  rw [Json.Numeral.text_of_fraction false whole fraction] at text
  refine ⟨whole, places, text, ⟨formed.whole_ne_nil, formed.whole_digits, .inl rfl, fraction, ?_, ?_⟩,
    formed.fraction_digits, ?_⟩
  · exact fun c member => .inl (formed.fraction_digits c member)
  · exact fun c last => formed.fraction_digits c (List.mem_of_mem_getLast? last)
  · rw [← value, Json.Numeral.toRat, Json.Numeral.decimal, Option.getD_none, zero_sub]

/-- The exponent of digits: a sign, if it is negative, and its digits. -/
theorem marked_exponent {digits : List Char} (nonempty : digits ≠ [])
    (areDigits : ∀ c ∈ digits, c.isDigit = true) (power : ℤ) :
    Marked digits 'e' ((if 0 ≤ power then realLayout.exponentPlus.toList else ['-']) ++
      decimal power.natAbs) := by
  have powerDigits := digit_of_mem_decimal power.natAbs
  have powerNonempty : decimal power.natAbs ≠ [] := Nat.toDigits_ne_nil
  refine ⟨nonempty, areDigits, .inr rfl, List.append_ne_nil_of_right_ne_nil _ powerNonempty, ?_, ?_⟩
  · intro c member
    rcases List.mem_append.mp member with inSign | inPower
    · split at inSign
      · cases inSign
      · rw [List.mem_singleton.mp inSign]
        exact .inr (by decide)
    · exact .inl (powerDigits c inPower)
  · exact fun c last => powerDigits c (mem_of_last powerNonempty last)

/-- Exponential notation: a digit, perhaps a point with more digits, and the mark of the exponent. -/
theorem exponential_text {digits : List Char} (nonempty : digits ≠ [])
    (areDigits : ∀ c ∈ digits, c.isDigit = true) (power : ℤ) :
    ∃ digit mark rest, realLayout.writeExponential digits power = digit :: mark :: rest ∧
      Marked [digit] mark rest ∧ 'e' ∈ mark :: rest := by
  obtain ⟨digit, more, rfl⟩ := List.exists_cons_of_ne_nil nonempty
  obtain ⟨isDigit, moreDigits⟩ := List.forall_mem_cons.mp areDigits
  have single : ∀ c ∈ [digit], c.isDigit = true := List.forall_mem_singleton.mpr isDigit
  cases more with
  | nil =>
      exact ⟨digit, 'e', _, rfl, marked_exponent (List.cons_ne_nil _ _) single power,
        List.mem_cons_self⟩
  | cons next more =>
      have exponent := marked_exponent (List.cons_ne_nil next more) moreDigits power
      refine ⟨digit, '.', _, ?_, exponent.after_point (List.cons_ne_nil _ _) single, by simp⟩
      simp [Decimal.Layout.writeExponential, decimal]

/-- The forms that the text of a double has. -/
inductive RealText : List Char → Prop
  | marked (negative : Bool) {digits rest : List Char} {mark : Char}
      (marked : Marked digits mark rest) :
      RealText (Json.Numeral.sign negative ++ (digits ++ mark :: rest))
  | infinite (negative : Bool) : RealText (Json.Numeral.sign negative ++ ['i', 'n', 'f'])
  | nan : RealText ['N', 'a', 'N']

namespace RealText

variable {text : List Char} (real : RealText text)

include real

theorem chars : ∀ c ∈ text, c.isDigit = true ∨ c ∈ ['.', 'e', '-', 'i', 'n', 'f', 'N', 'a'] := by
  intro c member
  cases real with
  | marked negative marked =>
      rcases List.mem_append.mp member with inSign | inMarked
      · cases negative with
        | true =>
            rw [List.mem_singleton.mp inSign]
            exact .inr (by decide)
        | false => cases inSign
      · exact (marked.chars c inMarked).imp_right (List.mem_append_left ['i', 'n', 'f', 'N', 'a'])
  | infinite negative =>
      right
      revert c
      cases negative <;> exact check_chars _ _ rfl
  | nan =>
      right
      revert c
      exact check_chars _ _ rfl

theorem head : ∀ c ∈ text.head?, c.isDigit = true ∨ c ∈ ['-', 'i', 'N'] := by
  intro c first
  cases real with
  | marked negative marked =>
      cases negative with
      | true =>
          cases first
          exact .inr (by decide)
      | false => exact .inl (marked.head_digit c first)
  | infinite negative => cases negative <;> (cases first; exact .inr (by decide))
  | nan =>
      cases first
      exact .inr (by decide)

theorem no_hex : ∀ c ∈ text, c ≠ 'x' ∧ c ≠ 'X' := by
  intro c member
  rcases real.chars c member with digit | other
  · constructor <;> (rintro rfl; cases digit)
  · exact check_chars _ (fun c => c ≠ 'x' ∧ c ≠ 'X') rfl c other

theorem last_alphanum : ∀ c ∈ text.getLast?, c.isAlphanum = true := by
  intro c last
  cases real with
  | marked negative marked =>
      rw [last_of_append _ (List.append_ne_nil_of_left_ne_nil marked.digits_ne_nil _)] at last
      rw [Char.isAlphanum, marked.last_digit_of_text c last, Bool.or_true]
  | infinite negative => cases negative <;> (cases last; rfl)
  | nan =>
      cases last
      rfl

end RealText

end Formula

/-! ## Literals -/

/-- Is the number read from its text? A double is if its text has no exponent. -/
def Number.hasLiteral : Number → Bool
  | .int value => value != Int64.minValue
  | .real value =>
      match datum value with
      | .finite _ whole exponent =>
          whole == 0 || Formula.realLayout.positional (Decimal.shortest .up whole exponent).magnitude
      | _ => false

namespace Formula

open Text Decimal

theorem write_finite {value : Float} {negative : Bool} {whole : ℕ} {exponent : ℤ}
    (number : datum value = .finite negative whole exponent) :
    realLayout.write value = Json.Numeral.sign negative ++
      if (Number.real value).hasLiteral then
        realLayout.writePositional (decimal (shortest .up whole exponent).significand)
          (shortest .up whole exponent).exponent
      else
        realLayout.writeExponential (decimal (shortest .up whole exponent).significand)
          (shortest .up whole exponent).magnitude := by
  have literal : (Number.real value).hasLiteral = true ↔
      whole = 0 ∨ realLayout.positional (shortest .up whole exponent).magnitude = true := by
    simp [Number.hasLiteral, number]
  rw [Decimal.Layout.write, number]
  simp only [literal]
  rfl

theorem exponent_of_zero (tie : Tie) (whole : ℕ) (exponent : ℤ)
    (zero : (shortest tie whole exponent).significand = 0) :
    (shortest tie whole exponent).exponent = 0 := by
  rcases Nat.eq_zero_or_pos whole with rfl | positive
  · rfl
  · exact absurd zero (shortest_significand_pos tie positive exponent).ne'

theorem real_text (value : Float) : RealText (realLayout.write value) := by
  cases number : datum value with
  | nan =>
      rw [Decimal.Layout.write, number]
      exact .nan
  | infinite negative =>
      rw [Decimal.Layout.write, number]
      exact .infinite negative
  | finite negative whole exponent =>
      rw [write_finite number]
      split
      · obtain ⟨whole, fraction, text, marked, -⟩ :=
          positional_text (exponent_of_zero .up whole exponent)
        rw [text]
        exact .marked negative marked
      · obtain ⟨digit, mark, rest, text, marked, -⟩ :=
          exponential_text Nat.toDigits_ne_nil (digit_of_mem_decimal _)
            (shortest .up whole exponent).magnitude
        rw [decimal, text]
        exact .marked negative marked

/-! ### Numbers that are read back -/

theorem unsigned_literal_eq (negative : Bool) {text : List Char}
    (decimal : ∀ c ∈ text, c ≠ 'x' ∧ c ≠ 'X') :
    readUnsignedLiteral? negative text =
      (readFraction? negative text).or (readMagnitude? negative 10 text) := by
  unfold readUnsignedLiteral?
  split
  · exact absurd rfl (decimal 'x' (by simp)).1
  · exact absurd rfl (decimal 'X' (by simp)).2
  · rfl

theorem signed_literal (negative : Bool) {text : List Char}
    (unsigned : ∀ c ∈ text.head?, c ≠ '-' ∧ c ≠ '+') :
    readLiteral? (Json.Numeral.sign negative ++ text) = readUnsignedLiteral? negative text := by
  cases negative with
  | true => rfl
  | false =>
      unfold readLiteral? Json.Numeral.sign
      split
      · rename_i minus
        exact absurd rfl (unsigned '-' (by rw [show text = _ from minus]; rfl)).1
      · rename_i plus
        exact absurd rfl (unsigned '+' (by rw [show text = _ from plus]; rfl)).2
      · rfl

theorem read_fraction (negative : Bool) {whole fraction : List Char}
    (wholeDigits : ∀ c ∈ whole, c.isDigit = true) (nonempty : fraction ≠ [])
    (fractionDigits : ∀ c ∈ fraction, c.isDigit = true) :
    readFraction? negative (whole ++ '.' :: fraction) = some (.real (toDouble negative
      ⟨spelled 0 (whole ++ fraction), -(fraction.length : ℤ)⟩)) := by
  have areDigits := List.forall_mem_append.mpr ⟨wholeDigits, fractionDigits⟩
  have point : ('.' : Char).isDigit = false := rfl
  have all : fraction.all Char.isDigit = true := List.all_eq_true.mpr fractionDigits
  rw [readFraction?, List.dropWhile_append_of_pos wholeDigits,
    List.dropWhile_cons_of_neg (by simp [point]), List.takeWhile_append_of_pos wholeDigits,
    List.takeWhile_cons_of_neg (by simp [point]), List.append_nil]
  simp only [read_digits_spelled 0 areDigits, all, Option.getD_some]
  simp [nonempty]

theorem literal_of_real {value : Float} (literal : (Number.real value).hasLiteral = true) :
    readLiteral? (realLayout.write value) = some (.real value) := by
  cases number : datum value with
  | nan => simp [Number.hasLiteral, number] at literal
  | infinite negative => simp [Number.hasLiteral, number] at literal
  | finite negative whole exponent =>
      obtain ⟨front, fraction, text, marked, fractionDigits, same⟩ :=
        positional_text (exponent_of_zero .up whole exponent)
      have noHex : ∀ c ∈ front ++ '.' :: fraction, c ≠ 'x' ∧ c ≠ 'X' :=
        (RealText.marked false marked).no_hex
      rw [write_finite number, if_pos literal, text, signed_literal negative marked.unsigned,
        unsigned_literal_eq negative noHex,
        read_fraction negative marked.are_digits marked.rest_ne_nil fractionDigits, Option.some_or]
      congr 2
      rcases Nat.eq_zero_or_pos whole with rfl | positive
      · have zero : (shortest .up 0 exponent).toRat = 0 := by
          rw [shortest, if_pos rfl, toRat, Nat.cast_zero, zero_mul]
        exact to_double_of_zero number (same.trans zero)
      · apply to_double_of_near number positive
        · exact Int.neg_nonpos_of_nonneg (Int.natCast_nonneg _)
        · rw [same]
          exact shortest_near .up positive exponent

/-! ### Numbers that are not read back -/

theorem read_fraction_none (negative : Bool) {text : List Char} {c : Char} (member : c ∈ text)
    (other : c.isDigit = false ∧ c ≠ '.') : readFraction? negative text = none := by
  unfold readFraction?
  split
  · rename_i fraction dropped
    have parts := List.takeWhile_append_dropWhile (p := Char.isDigit) (l := text)
    rw [← parts, dropped] at member
    rcases List.mem_append.mp member with inWhole | later
    · have digit := List.mem_takeWhile_imp inWhole
      rw [other.1] at digit
      cases digit
    · have inFraction := (List.mem_cons.mp later).resolve_left other.2
      have refused : fraction.all Char.isDigit = false := by
        rw [List.all_eq_false]
        exact ⟨c, inFraction, by simp [other.1]⟩
      simp [refused]
  · rfl

theorem letter_no_digit : ∀ c ∈ ['e', 'i', 'N'],
    (c.isDigit = false ∧ c ≠ '.') ∧ ∀ digit ∈ digitValue? c, 10 ≤ digit :=
  check_chars _ _ rfl

/-- The text of a double that is no literal, its sign apart, has a letter among its characters. -/
structure Unliteral (text : List Char) : Prop where
  letter : ∃ c ∈ text, c ∈ ['e', 'i', 'N']
  unsigned : ∀ c ∈ text.head?, c ≠ '-' ∧ c ≠ '+'

theorem unliteral_of_real {value : Float} (noLiteral : (Number.real value).hasLiteral = false) :
    ∃ negative text, realLayout.write value = Json.Numeral.sign negative ++ text ∧
      Unliteral text := by
  cases number : datum value with
  | nan =>
      refine ⟨false, "NaN".toList, ?_, ⟨'N', by decide, by decide⟩, by simp⟩
      rw [Decimal.Layout.write, number]
      rfl
  | infinite negative =>
      refine ⟨negative, "inf".toList, ?_, ⟨'i', by decide, by decide⟩, by simp⟩
      rw [Decimal.Layout.write, number]
      rfl
  | finite negative whole exponent =>
      obtain ⟨digit, mark, rest, text, marked, power⟩ :=
        exponential_text Nat.toDigits_ne_nil
          (digit_of_mem_decimal (shortest .up whole exponent).significand)
          (shortest .up whole exponent).magnitude
      refine ⟨negative, digit :: mark :: rest, ?_,
        ⟨'e', List.mem_cons_of_mem _ power, by decide⟩, marked.unsigned⟩
      rw [write_finite number, noLiteral, decimal, text]
      rfl

theorem literal_none_of_real {value : Float} (noLiteral : (Number.real value).hasLiteral = false) :
    readLiteral? (realLayout.write value) = none := by
  obtain ⟨negative, text, same, ⟨c, member, letter⟩, unsigned⟩ := unliteral_of_real noLiteral
  have noHex : ∀ c ∈ text, c ≠ 'x' ∧ c ≠ 'X' := fun c inText =>
    (real_text value).no_hex c (same ▸ List.mem_append_right _ inText)
  obtain ⟨other, noDigit⟩ := letter_no_digit c letter
  have magnitude : readMagnitude? negative 10 text = none := by
    rw [readMagnitude?, read_nat_none member noDigit]
  rw [same, signed_literal negative unsigned, unsigned_literal_eq negative noHex,
    read_fraction_none negative member other, magnitude]
  rfl

theorem int_none_of_real {value : Float} (noLiteral : (Number.real value).hasLiteral = false) :
    readInt64? (realLayout.write value) = none := by
  obtain ⟨negative, text, same, ⟨c, member, letter⟩, unsigned⟩ := unliteral_of_real noLiteral
  have noDigit := (letter_no_digit c letter).2
  have digits := read_nat_none member noDigit
  rw [same]
  cases negative with
  | true =>
      rw [Json.Numeral.sign, if_pos rfl, List.singleton_append, readInt64?, digits]
  | false =>
      have number : readUnsigned? 10 limit63 text = none :=
        read_unsigned_none member noDigit (by rintro rfl; revert letter; decide)
      unfold readInt64? Json.Numeral.sign
      split
      · rename_i minus
        exact absurd rfl (unsigned '-' (by rw [show text = _ from minus]; rfl)).1
      · rw [if_neg Bool.false_ne_true, List.nil_append, number]

end Formula

/-! ### The range of literals -/

namespace Number

/-- Every integer but the smallest, zero, and doubles from a ten-thousandth on and below 10 ^ 16. -/
def HasLiteral : Number → Prop
  | .int value => value ≠ Int64.minValue
  | .real value => isFinite value = true ∧
      (size value = 0 ∨ (1 : ℚ) / 10 ^ 4 ≤ size value ∧ size value < 10 ^ 16)

theorem has_literal_iff (number : Number) : number.hasLiteral = true ↔ number.HasLiteral := by
  cases number with
  | int value => simp [hasLiteral, HasLiteral]
  | real value =>
      rw [HasLiteral, isFinite, hasLiteral]
      cases number : datum value with
      | nan => simp
      | infinite negative => simp
      | finite negative whole exponent =>
          have splits := splits_of_double number
          have place : (2 : ℚ) ^ exponent ≠ 0 := by positivity
          rw [size_of_number number]
          rcases Nat.eq_zero_or_pos whole with rfl | positive
          · simp
          · have within := Decimal.magnitude_within_iff splits.normal splits.finite positive
            have nonzero : (whole : ℚ) * 2 ^ exponent ≠ 0 :=
              mul_ne_zero (Nat.cast_ne_zero.mpr positive.ne') place
            rw [← within]
            simp [positive.ne', nonzero, Formula.realLayout]

end Number

end Achievements
