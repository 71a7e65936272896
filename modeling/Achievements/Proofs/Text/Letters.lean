import Achievements.Proofs.Text.Written

/-!
# The case of letters in texts

A text in lower case has the same digits, blanks and marks, so its numerals have the same values and
trimming it is trimming the text.
-/

set_option autoImplicit false

namespace Achievements

namespace Text

/-! ## Characters -/

def capitals : List Char :=
  (List.range 26).map fun index => Char.ofNat (65 + index)

theorem lower_cases (c : Char) : c.toLower = c ∨ c ∈ capitals := by
  by_cases capital : 'A'.val ≤ c.val ∧ c.val ≤ 'Z'.val
  · have lower : 65 ≤ c.toNat := UInt32.le_iff_toNat_le.mp capital.1
    have upper : c.toNat ≤ 90 := UInt32.le_iff_toNat_le.mp capital.2
    refine Or.inr (List.mem_map.mpr ⟨c.toNat - 65, List.mem_range.mpr (by omega), ?_⟩)
    rw [Nat.add_sub_cancel' lower, Char.ofNat_toNat]
  · exact Or.inl (dif_neg capital)

/-- What is the same for all capital letters and their lower case is the same for all characters and
theirs. -/
theorem of_lower {α : Type} [DecidableEq α] (property : Char → α)
    (checked : (capitals.all fun c => decide (property c.toLower = property c)) = true) (c : Char) :
    property c.toLower = property c := by
  rcases lower_cases c with same | capital
  · rw [same]
  · exact check_chars capitals (fun c => property c.toLower = property c) checked c capital

theorem to_lower_to_lower (c : Char) : c.toLower.toLower = c.toLower :=
  of_lower Char.toLower rfl c

theorem is_digit_lower (c : Char) : c.toLower.isDigit = c.isDigit :=
  of_lower Char.isDigit rfl c

theorem is_blank_lower (c : Char) : isBlank c.toLower = isBlank c :=
  of_lower isBlank rfl c

theorem digit_value_lower (c : Char) : digitValue? c.toLower = digitValue? c :=
  of_lower digitValue? rfl c

theorem is_hex_digit_lower (c : Char) : isHexDigit c.toLower = isHexDigit c := by
  rw [isHexDigit, digit_value_lower, isHexDigit]

theorem is_alpha_lower (c : Char) : c.toLower.isAlpha = c.isAlpha :=
  of_lower Char.isAlpha rfl c

/-- Lower case does not make a mark of another character. -/
theorem lower_eq_iff {c mark : Char} (noLetter : mark.isAlpha = false) :
    c.toLower = mark ↔ c = mark := by
  rcases lower_cases c with same | capital
  · rw [same]
  · have letter := check_chars capitals (fun c => c.isAlpha = true) rfl c capital
    constructor
    · rintro rfl
      rw [is_alpha_lower, letter] at noLetter
      cases noLetter
    · rintro rfl
      rw [letter] at noLetter
      cases noLetter

/-! ## Texts -/

/-- A text with its ASCII letters in lower case. -/
def lower (text : List Char) : List Char :=
  text.map Char.toLower

@[simp] theorem lower_nil : lower [] = [] := rfl

@[simp] theorem lower_cons (c : Char) (text : List Char) :
    lower (c :: text) = c.toLower :: lower text := rfl

@[simp] theorem lower_append (first second : List Char) :
    lower (first ++ second) = lower first ++ lower second :=
  List.map_append

@[simp] theorem lower_reverse (text : List Char) : (lower text).reverse = lower text.reverse :=
  List.map_reverse.symm

@[simp] theorem lower_lower (text : List Char) : lower (lower text) = lower text := by
  rw [lower, lower, List.map_map]
  exact List.map_congr_left fun c _ => to_lower_to_lower c

@[simp] theorem lower_is_empty (text : List Char) : (lower text).isEmpty = text.isEmpty :=
  List.isEmpty_map

section While

variable {property : Char → Bool} (caseless : ∀ c, property c.toLower = property c)

include caseless

theorem take_while_lower (text : List Char) :
    (lower text).takeWhile property = lower (text.takeWhile property) := by
  rw [lower, List.takeWhile_map, (funext caseless : property ∘ Char.toLower = property)]
  rfl

theorem drop_while_lower (text : List Char) :
    (lower text).dropWhile property = lower (text.dropWhile property) := by
  rw [lower, List.dropWhile_map, (funext caseless : property ∘ Char.toLower = property)]
  rfl

end While

theorem trim_start_lower (text : List Char) : trimStart (lower text) = lower (trimStart text) :=
  drop_while_lower is_blank_lower text

theorem trim_end_lower (text : List Char) : trimEnd (lower text) = lower (trimEnd text) := by
  rw [trimEnd, lower_reverse, drop_while_lower is_blank_lower, lower_reverse, trimEnd]

@[simp] theorem trim_lower (text : List Char) : trim (lower text) = lower (trim text) := by
  rw [trim, trim_start_lower, trim_end_lower, trim]

theorem equal_lower (text word : List Char) :
    equalIgnoringAsciiCase (lower text) word = equalIgnoringAsciiCase text word := by
  have same : (lower text).map Char.toLower = text.map Char.toLower := lower_lower text
  rw [equalIgnoringAsciiCase, same, equalIgnoringAsciiCase]

/-! ## Numerals -/

theorem read_digits_lower (base value : Nat) (text : List Char) :
    readDigits base value (lower text) = readDigits base value text := by
  induction text generalizing value with
  | nil => rfl
  | cons c text ih =>
      rw [lower_cons, readDigits, readDigits, digit_value_lower]
      simp only [ih]

@[simp] theorem read_nat_lower (base : Nat) (text : List Char) :
    readNat? base (lower text) = readNat? base text := by
  cases text with
  | nil => rfl
  | cons c text => exact read_digits_lower base 0 (c :: text)

theorem read_unsigned_cons (base limit : Nat) (c : Char) (text : List Char) :
    readUnsigned? base limit (c :: text) =
      match readNat? base (if c = '+' then text else c :: text) with
      | some value => if value ≤ limit then some value else none
      | none => none := by
  unfold readUnsigned?
  split
  · rename_i rest signed
    cases signed
    rfl
  · rename_i other
    have kept : (if c = '+' then text else c :: text) = c :: text :=
      if_neg fun plus => other text (by rw [plus])
    exact kept.symm ▸ rfl

@[simp] theorem read_unsigned_lower (base limit : Nat) (text : List Char) :
    readUnsigned? base limit (lower text) = readUnsigned? base limit text := by
  cases text with
  | nil => rfl
  | cons c text =>
      have whole := read_nat_lower base (c :: text)
      rw [lower_cons] at whole ⊢
      rw [read_unsigned_cons, read_unsigned_cons]
      simp only [lower_eq_iff (show '+'.isAlpha = false from rfl), apply_ite (readNat? base), whole,
        read_nat_lower]

theorem read_int_cons (c : Char) (text : List Char) :
    readInt64? (c :: text) =
      if c = '-' then
        match readNat? 10 text with
        | some value => if value ≤ limit63 + 1 then some (Int64.ofInt (-value)) else none
        | none => none
      else
        match readUnsigned? 10 limit63 (c :: text) with
        | some value => some (Int64.ofNat value)
        | none => none := by
  unfold readInt64?
  split
  · rename_i rest signed
    cases signed
    rfl
  · rename_i other
    have unsigned : c ≠ '-' := fun minus => other text (by rw [minus])
    exact (if_neg unsigned).symm

@[simp] theorem read_int_lower (text : List Char) : readInt64? (lower text) = readInt64? text := by
  cases text with
  | nil => rfl
  | cons c text =>
      have whole := read_unsigned_lower 10 limit63 (c :: text)
      rw [lower_cons] at whole ⊢
      simp only [read_int_cons, lower_eq_iff (show '-'.isAlpha = false from rfl), whole,
        read_nat_lower]

end Text

end Achievements
