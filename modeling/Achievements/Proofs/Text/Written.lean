import Achievements.Text.Blank
import Achievements.Text.Numeral

/-!
# Written numerals are read back

Numerals in any base up to sixteen, padded or not, texts that are no numeral, and texts that trimming
leaves alone.
-/

set_option autoImplicit false

namespace Achievements.Text

theorem digit_value_of_digit_char :
    ∀ digit < 16, digitValue? (Nat.digitChar digit) = some digit := by
  decide

theorem read_digits_append (base value : Nat) (first second : List Char) :
    readDigits base value (first ++ second) =
      (readDigits base value first).bind fun read => readDigits base read second := by
  induction first generalizing value with
  | nil => rfl
  | cons c rest ih =>
      rw [List.cons_append, readDigits, readDigits]
      cases digitValue? c with
      | none => rfl
      | some digit =>
          simp only
          split
          · exact ih _
          · rfl

theorem read_digit {base digit : Nat} (value : Nat) (small : base ≤ 16) (below : digit < base) :
    readDigits base value [Nat.digitChar digit] = some (value * base + digit) := by
  have read := digit_value_of_digit_char digit (Nat.lt_of_lt_of_le below small)
  simp [readDigits, read, below]

theorem read_digits_of_number {base : Nat} (wide : 1 < base) (small : base ≤ 16) (number : Nat) :
    readDigits base 0 (Nat.toDigits base number) = some number := by
  induction number using Nat.strongRecOn with
  | ind number ih =>
      rw [Nat.toDigits_eq_if wide]
      split
      · rename_i below
        rw [read_digit 0 small below, Nat.zero_mul, Nat.zero_add]
      · rename_i notBelow
        have shorter : number / base < number := Nat.div_lt_self (by omega) wide
        rw [read_digits_append, ih _ shorter, Option.bind_some,
          read_digit _ small (Nat.mod_lt _ (by omega))]
        congr 1
        exact Nat.div_add_mod' number base

theorem read_digits_of_padding {base : Nat} (wide : 1 < base) (count : Nat) (digits : List Char) :
    readDigits base 0 (List.replicate count '0' ++ digits) = readDigits base 0 digits := by
  induction count with
  | zero => rfl
  | succ count ih =>
      have zero : digitValue? '0' = some 0 := rfl
      rw [List.replicate_succ, List.cons_append, readDigits, zero]
      simp only [Nat.zero_mul, Nat.zero_add, if_pos (Nat.lt_trans Nat.zero_lt_one wide)]
      exact ih

theorem read_nat_of_digits (base : Nat) {digits : List Char} (nonempty : digits ≠ []) :
    readNat? base digits = readDigits base 0 digits := by
  cases digits with
  | nil => exact absurd rfl nonempty
  | cons => rfl

theorem read_nat_decimal (number : Nat) : readNat? 10 (decimal number) = some number := by
  rw [decimal, read_nat_of_digits _ Nat.toDigits_ne_nil]
  exact read_digits_of_number (by decide) (by decide) number

theorem hexadecimal_ne_nil (width number : Nat) : hexadecimal width number ≠ [] :=
  List.append_ne_nil_of_right_ne_nil _ Nat.toDigits_ne_nil

theorem read_nat_hexadecimal (width number : Nat) :
    readNat? 16 (hexadecimal width number) = some number := by
  rw [read_nat_of_digits _ (hexadecimal_ne_nil width number), hexadecimal]
  simp only [read_digits_of_padding (show 1 < 16 by decide)]
  exact read_digits_of_number (by decide) (by decide) number

theorem mem_digits {base : Nat} (wide : 1 < base) (number : Nat) {c : Char}
    (member : c ∈ Nat.toDigits base number) : ∃ digit < base, c = Nat.digitChar digit := by
  induction number using Nat.strongRecOn with
  | ind number ih =>
      rw [Nat.toDigits_eq_if wide] at member
      split at member
      · rename_i below
        exact ⟨number, below, List.mem_singleton.mp member⟩
      · rename_i notBelow
        rcases List.mem_append.mp member with earlier | last
        · exact ih _ (Nat.div_lt_self (by omega) wide) earlier
        · exact ⟨_, Nat.mod_lt _ (by omega), List.mem_singleton.mp last⟩

/-- What is true of all digits is true of the characters of a decimal numeral. -/
theorem of_mem_decimal (property : Char → Prop) (number : Nat)
    (digits : ∀ digit < 10, property (Nat.digitChar digit)) {c : Char}
    (member : c ∈ decimal number) : property c := by
  obtain ⟨digit, below, rfl⟩ := mem_digits (by decide) number member
  exact digits digit below

theorem of_mem_hexadecimal (property : Char → Prop) (width number : Nat)
    (digits : ∀ digit < 16, property (Nat.digitChar digit)) {c : Char}
    (member : c ∈ hexadecimal width number) : property c := by
  rcases List.mem_append.mp member with padding | significant
  · rw [List.eq_of_mem_replicate padding]
    exact digits 0 (by decide)
  · obtain ⟨digit, below, rfl⟩ := mem_digits (by decide) number significant
    exact digits digit below

/-- Dropping digits goes past a numeral. -/
theorem drop_digits_decimal (number : Nat) (rest : List Char) :
    (decimal number ++ rest).dropWhile Char.isDigit = rest.dropWhile Char.isDigit :=
  List.dropWhile_append_of_pos fun _ member =>
    of_mem_decimal (·.isDigit = true) number (by decide) member

theorem read_unsigned_eq {base limit value : Nat} {text : List Char} (unsigned : '+' ∉ text)
    (read : readNat? base text = some value) (small : value ≤ limit) :
    readUnsigned? base limit text = some value := by
  unfold readUnsigned?
  split
  · exact absurd List.mem_cons_self unsigned
  · simp only [read, if_pos small]

/-- A text with a character that is no digit of the base is no number. -/
theorem read_digits_none {base : Nat} {text : List Char} {c : Char} (member : c ∈ text)
    (noDigit : ∀ digit ∈ digitValue? c, base ≤ digit) (start : Nat) :
    readDigits base start text = none := by
  induction text generalizing start with
  | nil => cases member
  | cons d text ih =>
      rw [readDigits]
      split
      · rename_i digit value
        split
        · rename_i below
          apply ih
          refine (List.mem_cons.mp member).resolve_left ?_
          rintro rfl
          exact Nat.not_lt_of_le (noDigit digit value) below
        · rfl
      · rfl

theorem read_nat_none {base : Nat} {text : List Char} {c : Char} (member : c ∈ text)
    (noDigit : ∀ digit ∈ digitValue? c, base ≤ digit) : readNat? base text = none := by
  rw [read_nat_of_digits base (List.ne_nil_of_mem member), read_digits_none member noDigit]

theorem read_unsigned_none {base limit : Nat} {text : List Char} {c : Char} (member : c ∈ text)
    (noDigit : ∀ digit ∈ digitValue? c, base ≤ digit) (noPlus : c ≠ '+') :
    readUnsigned? base limit text = none := by
  unfold readUnsigned?
  split
  · simp only [read_nat_none ((List.mem_cons.mp member).resolve_left noPlus) noDigit]
  · simp only [read_nat_none member noDigit]

/-- A check of some characters by evaluation. Deciding the statement as it stands may mean to try all
characters that there are. -/
theorem check_chars (list : List Char) (property : Char → Prop) [DecidablePred property]
    (checked : (list.all fun c => decide (property c)) = true) : ∀ c ∈ list, property c :=
  fun c member => of_decide_eq_true (List.all_eq_true.mp checked c member)

/-- Trimming removes nothing from a text with characters at both ends that are not blank. -/
theorem trim_start_eq {text : List Char} (first : ∀ c ∈ text.head?, isBlank c = false) :
    trimStart text = text := by
  cases text with
  | nil => rfl
  | cons c rest => exact List.dropWhile_cons_of_neg (by simp [first c rfl])

theorem trim_end_eq {text : List Char} (last : ∀ c ∈ text.getLast?, isBlank c = false) :
    trimEnd text = text := by
  have reversed : trimStart text.reverse = text.reverse := trim_start_eq (by
    rw [List.head?_reverse]
    exact last)
  rw [trimStart] at reversed
  rw [trimEnd, reversed, List.reverse_reverse]

theorem trim_eq {text : List Char} (first : ∀ c ∈ text.head?, isBlank c = false)
    (last : ∀ c ∈ text.getLast?, isBlank c = false) : trim text = text := by
  rw [trim, trim_start_eq first, trim_end_eq last]

theorem last_of_append (front : List Char) {back : List Char} (nonempty : back ≠ []) :
    (front ++ back).getLast? = back.getLast? := by
  rw [List.getLast?_append, List.getLast?_eq_some_getLast nonempty, Option.some_or]

theorem mem_of_last {front back : List Char} (nonempty : back ≠ []) {c : Char}
    (last : c ∈ (front ++ back).getLast?) : c ∈ back := by
  rw [last_of_append front nonempty] at last
  exact List.mem_of_mem_getLast? last

theorem trim_of_no_blanks {text : List Char} (visible : ∀ c ∈ text, isBlank c = false) :
    trim text = text :=
  trim_eq (fun c first => visible c (List.mem_of_mem_head? first))
    fun c last => visible c (List.mem_of_mem_getLast? last)

theorem mem_drop_while {text : List Char} {c : Char} {dropped : Char → Bool} (member : c ∈ text)
    (kept : dropped c = false) : c ∈ text.dropWhile dropped := by
  rw [← List.takeWhile_append_dropWhile (p := dropped) (l := text)] at member
  refine (List.mem_append.mp member).resolve_left fun taken => ?_
  rw [List.all_eq_true.mp List.all_takeWhile c taken] at kept
  cases kept

theorem mem_trim {text : List Char} {c : Char} (member : c ∈ text) (visible : isBlank c = false) :
    c ∈ trim text := by
  rw [trim, trimEnd, List.mem_reverse]
  exact mem_drop_while (List.mem_reverse.mpr (mem_drop_while member visible)) visible

end Achievements.Text
