import Achievements.Json.Reader
import Achievements.Json.Writer
import Achievements.Proofs.Decimal.Shortest
import Achievements.Proofs.Text.Written

/-!
# Strings and numbers of documents are read back

A string stands between quotes and its special characters are escaped, so reading it stops at its own
closing quote. A number has no such mark: it is read back if no character follows that could belong to
a number. `Numeral` takes numbers apart into what their readers look for.
-/

set_option autoImplicit false

namespace Achievements.Json

open Text

/-! ## Strings -/

theorem hex_code_of_control : ∀ code < 0x20,
    hexCode? '0' '0' (Nat.digitChar (code / 16)) (Nat.digitChar (code % 16)) = some code := by
  decide

theorem read_short_escape {letter c : Char} (rest : List Char)
    (short : shortEscape? letter = some c) (noCode : letter ≠ 'u') :
    readPieces ('\\' :: letter :: rest) =
      (readPieces rest).map fun read => (.char c :: read.1, read.2) := by
  rw [readPieces, short]
  · cases readPieces rest <;> rfl
  · intro _ _ _ _ _ same
    exact absurd same noCode

theorem read_plain_char {c : Char} (rest : List Char) (noQuote : c ≠ '"') (noBackslash : c ≠ '\\')
    (noControl : ¬c.toNat < 0x20) :
    readPieces (c :: rest) = (readPieces rest).map fun read => (.char c :: read.1, read.2) := by
  rw [readPieces, if_neg noControl]
  · cases readPieces rest <;> rfl
  all_goals simp [noQuote, noBackslash]

theorem read_escaped_char (c : Char) (rest : List Char) :
    readPieces (escapeChar c ++ rest) =
      (readPieces rest).map fun read => (.char c :: read.1, read.2) := by
  unfold escapeChar
  iterate 7
    split
    · rename_i same
      subst same
      exact read_short_escape rest rfl (by decide)
  split
  · rename_i control
    have code := hex_code_of_control c.toNat control
    have plain : pieceOfCode c.toNat = .char c := by
      rw [pieceOfCode, if_neg (by omega), Char.ofNat_toNat]
    simp only [List.cons_append, List.nil_append]
    rw [readPieces, code]
    cases readPieces rest with
    | none => rfl
    | some read => simp only [plain]; rfl
  · rename_i noQuote noBackslash _ _ _ _ _ noControl
    exact read_plain_char rest noQuote noBackslash noControl

theorem read_escaped (text rest : List Char) :
    readPieces (text.flatMap escapeChar ++ '"' :: rest) = some (text.map .char, rest) := by
  induction text with
  | nil => rfl
  | cons c text ih => rw [List.flatMap_cons, List.append_assoc, read_escaped_char, ih]; rfl

theorem join_chars (text : List Char) : joinPieces? (text.map .char) = some text := by
  induction text with
  | nil => rfl
  | cons c text ih => rw [List.map_cons, joinPieces?, ih]; rfl

theorem read_string (text : String) (rest : List Char) :
    readString? (text.toList.flatMap escapeChar ++ '"' :: rest) = some (some text, rest) := by
  rw [readString?, read_escaped]
  simp only [join_chars, Option.map_some, String.ofList_toList]

/-! ## Numbers -/

/-- A number as its reader takes it apart. -/
structure Numeral where
  negative : Bool
  whole : List Char
  fraction : List Char
  exponent : Option Int

/-- No character of a number follows. -/
def Ends (rest : List Char) : Prop :=
  ∀ c ∈ rest.head?, c.isDigit = false ∧ c ≠ '.' ∧ c ≠ 'e' ∧ c ≠ 'E'

theorem ends_of_nil : Ends [] := by
  simp [Ends]

namespace Numeral

/-- The digits after the point, with the point. -/
def pointText (numeral : Numeral) : List Char :=
  if numeral.fraction = [] then [] else '.' :: numeral.fraction

/-- The exponent with its mark. -/
def exponentText (numeral : Numeral) : List Char :=
  match numeral.exponent with
  | none => []
  | some exponent => 'e' :: (if 0 ≤ exponent then '+' else '-') :: Text.decimal exponent.natAbs

def text (numeral : Numeral) : List Char :=
  (if numeral.negative then ['-'] else []) ++ numeral.whole ++ numeral.pointText ++
    numeral.exponentText

/-- The digits are digits, and no zero leads more of them. -/
structure Formed (numeral : Numeral) : Prop where
  whole_ne_nil : numeral.whole ≠ []
  whole_digits : ∀ c ∈ numeral.whole, c.isDigit = true
  leading : numeral.whole = ['0'] ∨ numeral.whole.head? ≠ some '0'
  fraction_digits : ∀ c ∈ numeral.fraction, c.isDigit = true

/-- The leaf that a number is read as. -/
def value (numeral : Numeral) : Json :=
  if numeral.fraction = [] ∧ numeral.exponent = none then
    Json.ofInteger numeral.negative numeral.whole
  else
    ofReal (Decimal.estimate numeral.negative
      (.ofDigits numeral.whole numeral.fraction (numeral.exponent.getD 0)))

end Numeral

theorem take_digits {digits rest : List Char} (nonempty : digits ≠ [])
    (areDigits : ∀ c ∈ digits, c.isDigit = true) (stop : ∀ c ∈ rest.head?, c.isDigit = false) :
    takeDigits? (digits ++ rest) = some (digits, rest) := by
  have nothing : rest.takeWhile Char.isDigit = [] ∧ rest.dropWhile Char.isDigit = rest := by
    cases rest with
    | nil => exact ⟨rfl, rfl⟩
    | cons c rest =>
        have other : c.isDigit = false := stop c rfl
        simp [other]
  have taken : (digits ++ rest).takeWhile Char.isDigit = digits := by
    rw [List.takeWhile_append_of_pos areDigits, nothing.1, List.append_nil]
  rw [takeDigits?, taken, List.dropWhile_append_of_pos areDigits, nothing.2]
  simp [nonempty]

theorem is_digit_of_digit_char : ∀ digit < 10, (Nat.digitChar digit).isDigit = true := by
  decide

theorem is_digit_of_mem_decimal {number : Nat} {c : Char} (member : c ∈ decimal number) :
    c.isDigit = true :=
  of_mem_decimal (·.isDigit = true) number is_digit_of_digit_char member

theorem head_of_decimal {number : Nat} (positive : 0 < number) :
    (decimal number).head? ≠ some '0' := by
  induction number using Nat.strongRecOn with
  | ind number ih =>
      rw [decimal, Nat.toDigits_eq_if (by decide)]
      split
      · rename_i small
        have nonzero : ∀ digit < 10, 0 < digit → Nat.digitChar digit ≠ '0' := by decide
        simpa using nonzero number small positive
      · rename_i large
        have shorter : number / 10 < number := Nat.div_lt_self positive (by decide)
        have start := ih (number / 10) shorter (by omega)
        rw [decimal] at start
        rw [List.head?_append, List.head?_eq_some_head Nat.toDigits_ne_nil] at *
        exact start

theorem value_of_decimal (number : Nat) : valueOf (decimal number) = number := by
  rw [valueOf, decimal, read_digits_of_number (by decide) (by decide), Option.getD_some]

namespace Numeral

variable {numeral : Numeral} {rest : List Char}

theorem no_digit_follows_whole (numeral : Numeral) (ends : Ends rest) :
    ∀ c ∈ (numeral.pointText ++ numeral.exponentText ++ rest).head?, c.isDigit = false := by
  unfold pointText exponentText
  split
  · split
    · exact fun c first => (ends c first).1
    · simp
  · simp

theorem no_digit_follows_fraction (ends : Ends rest) :
    ∀ c ∈ (numeral.exponentText ++ rest).head?, c.isDigit = false := by
  unfold exponentText
  split
  · exact fun c first => (ends c first).1
  · simp

theorem take_whole (formed : numeral.Formed) (ends : Ends rest) :
    takeWhole? (numeral.whole ++ (numeral.pointText ++ numeral.exponentText ++ rest)) =
      some (numeral.whole, numeral.pointText ++ numeral.exponentText ++ rest) := by
  rcases formed.leading with zero | nonzero
  · rw [zero]
    rfl
  · have stop := no_digit_follows_whole numeral ends
    have taken := take_digits formed.whole_ne_nil formed.whole_digits stop
    unfold takeWhole?
    split
    · rename_i start
      obtain ⟨c, digits, split⟩ := List.exists_cons_of_ne_nil formed.whole_ne_nil
      rw [split, List.cons_append] at start
      cases start
      exact absurd (by rw [split]; rfl) nonzero
    · exact taken

theorem take_fraction (formed : numeral.Formed) (ends : Ends rest) :
    takeFraction? (numeral.pointText ++ (numeral.exponentText ++ rest)) =
      some (numeral.fraction, numeral.exponentText ++ rest) := by
  unfold pointText
  split
  · rename_i empty
    rw [empty, List.nil_append]
    unfold takeFraction?
    split
    · rename_i start
      have point : '.' ∈ (numeral.exponentText ++ rest).head? := by rw [start]; rfl
      unfold exponentText at point
      split at point
      · exact absurd rfl (ends '.' point).2.1
      · simp at point
    · rfl
  · rename_i nonempty
    exact take_digits nonempty formed.fraction_digits (no_digit_follows_fraction ends)

theorem take_exponent (ends : Ends rest) :
    takeExponent? (numeral.exponentText ++ rest) = some (numeral.exponent, rest) := by
  unfold exponentText
  split
  · rename_i absent
    rw [absent, List.nil_append]
    unfold takeExponent?
    split
    · exact absurd rfl (ends 'e' rfl).2.2.1
    · exact absurd rfl (ends 'E' rfl).2.2.2
    · rfl
  · rename_i exponent present
    have taken := take_digits Nat.toDigits_ne_nil
      (fun c (member : c ∈ decimal exponent.natAbs) => is_digit_of_mem_decimal member)
      fun c first => (ends c first).1
    have value := value_of_decimal exponent.natAbs
    rw [decimal] at value
    rw [present, List.cons_append, takeExponent?, List.cons_append, decimal]
    split
    · have signed : (exponent.natAbs : Int) = exponent := by omega
      simp only [takeExponentDigits?, taken, value, signed]
      rfl
    · have signed : -(exponent.natAbs : Int) = exponent := by omega
      simp only [takeExponentDigits?, taken, value, signed]
      rfl

theorem read_unsigned (formed : numeral.Formed) (ends : Ends rest) :
    readUnsigned? numeral.negative
        (numeral.whole ++ (numeral.pointText ++ numeral.exponentText ++ rest)) =
      some (numeral.value, rest) := by
  rw [readUnsigned?, take_whole formed ends]
  simp only [List.append_assoc, take_fraction formed ends, take_exponent ends]
  rw [Numeral.value]
  split <;> rename_i plain
  · rw [if_pos (by simpa using plain)]
  · rw [if_neg (by simpa using plain)]

/-- A number is read up to where it ends. -/
theorem read_numeral (formed : numeral.Formed) (ends : Ends rest) :
    readNumber? (numeral.text ++ rest) = some (numeral.value, rest) := by
  have unsigned := read_unsigned formed ends
  simp only [text, List.append_assoc] at unsigned ⊢
  cases sign : numeral.negative with
  | true =>
      rw [sign] at unsigned
      exact unsigned
  | false =>
      rw [sign] at unsigned
      obtain ⟨c, digits, split⟩ := List.exists_cons_of_ne_nil formed.whole_ne_nil
      have digit : c.isDigit = true := formed.whole_digits c (by simp [split])
      simp only [if_neg Bool.false_ne_true, List.nil_append]
      rw [split, List.cons_append] at unsigned ⊢
      unfold readNumber?
      split
      · rename_i start
        cases start
        exact absurd digit (by decide)
      · exact unsigned

/-! ### Integers -/

/-- An integer as it is written. -/
def ofInteger (value : Int) : Numeral :=
  ⟨value < 0, decimal value.natAbs, [], none⟩

theorem text_of_integer (value : Int) : writeInteger value = (ofInteger value).text := by
  rw [writeInteger, text, ofInteger, pointText, exponentText]
  simp only [if_true, List.append_nil, decide_eq_true_eq, decimal]
  split <;> rfl

theorem formed_of_integer (value : Int) : (ofInteger value).Formed where
  whole_ne_nil := Nat.toDigits_ne_nil
  whole_digits := fun _ member => is_digit_of_mem_decimal member
  leading := by
    rcases Nat.eq_zero_or_pos value.natAbs with zero | positive
    · exact .inl (by rw [ofInteger, zero]; rfl)
    · exact .inr (head_of_decimal positive)
  fraction_digits := by
    rw [ofInteger]
    simp

/-- Does an integer fit 64 bits, signed or unsigned? -/
def Fits (value : Int) : Prop :=
  -0x8000000000000000 ≤ value ∧ value ≤ 0xFFFFFFFFFFFFFFFF

theorem value_of_integer {value : Int} (fits : Fits value) :
    (ofInteger value).value = .integer value := by
  obtain ⟨low, high⟩ := fits
  have limits : limit64 = 0xFFFFFFFFFFFFFFFF ∧ limit63 = 0x7FFFFFFFFFFFFFFF := ⟨rfl, rfl⟩
  rw [Numeral.value, if_pos ⟨rfl, rfl⟩, ofInteger, Json.ofInteger]
  simp only [value_of_decimal]
  by_cases negative : value < 0
  · have inRange : 0 < value.natAbs ∧ value.natAbs ≤ limit63 + 1 := by omega
    have signed : -(value.natAbs : Int) = value := by omega
    rw [if_neg (by simp [negative]), if_pos (by simpa [negative] using inRange), signed]
  · have inRange : value.natAbs ≤ limit64 := by omega
    have signed : (value.natAbs : Int) = value := by omega
    rw [if_pos (by simpa [negative] using inRange), signed]

/-! ### Doubles -/

/-- A decimal as it is written, the point among its digits, before them or after them. -/
def positional (negative : Bool) (digits : List Char) (exponent : Int) : Numeral :=
  if 0 ≤ exponent then ⟨negative, digits ++ List.replicate exponent.toNat '0', ['0'], none⟩
  else
    let places := (-exponent).toNat
    if places < digits.length then
      ⟨negative, digits.take (digits.length - places), digits.drop (digits.length - places), none⟩
    else ⟨negative, ['0'], List.replicate (places - digits.length) '0' ++ digits, none⟩

/-- A decimal as it is written with an exponent, the point after the first digit. -/
def exponential (negative : Bool) (digits : List Char) (magnitude : Int) : Numeral :=
  ⟨negative, digits.take 1, digits.drop 1, some magnitude⟩

/-- A decimal as it is written. -/
def ofDecimal (negative : Bool) (decimal : Decimal) : Numeral :=
  let digits := Text.decimal decimal.significand
  let magnitude := decimal.exponent + digits.length - 1
  if decimal.significand = 0 ∨ realLayout.positional magnitude then
    positional negative digits decimal.exponent
  else exponential negative digits magnitude

/-- A finite double as it is written. -/
def ofReal (value : Float) : Numeral :=
  match Ieee.datum value with
  | .finite negative mantissa exponent =>
      ofDecimal negative (Decimal.shortest .toEven mantissa exponent)
  | _ => ofInteger 0

/-- A minus sign, if there is one. -/
def sign (negative : Bool) : List Char :=
  if negative then ['-'] else []

theorem text_of_fraction (negative : Bool) (whole : List Char) {fraction : List Char}
    (nonempty : fraction ≠ []) :
    (⟨negative, whole, fraction, none⟩ : Numeral).text =
      sign negative ++ (whole ++ '.' :: fraction) := by
  simp only [text, pointText, exponentText, if_neg nonempty, List.append_nil, List.append_assoc]
  rfl

/-- A positional number has a point and no exponent. -/
theorem parts_of_positional (negative : Bool) {digits : List Char} (nonempty : digits ≠ [])
    (exponent : Int) :
    (positional negative digits exponent).fraction ≠ [] ∧
      (positional negative digits exponent).exponent = none ∧
      (positional negative digits exponent).negative = negative := by
  unfold positional
  split
  · exact ⟨List.cons_ne_nil _ _, rfl, rfl⟩
  · simp only
    split
    · refine ⟨?_, rfl, rfl⟩
      rw [Ne, List.drop_eq_nil_iff]
      omega
    · exact ⟨List.append_ne_nil_of_right_ne_nil _ nonempty, rfl, rfl⟩

theorem text_of_positional (negative : Bool) {digits : List Char} (nonempty : digits ≠ [])
    (exponent : Int) :
    sign negative ++ realLayout.writePositional digits exponent =
      (positional negative digits exponent).text := by
  unfold positional Decimal.Layout.writePositional
  by_cases whole : 0 ≤ exponent
  · rw [if_pos whole, if_pos whole, text_of_fraction _ _ (List.cons_ne_nil _ _)]
    rfl
  · rw [if_neg whole, if_neg whole]
    simp only
    by_cases fewer : (-exponent).toNat < digits.length
    · have rest : digits.drop (digits.length - (-exponent).toNat) ≠ [] := by
        rw [Ne, List.drop_eq_nil_iff]
        omega
      rw [if_pos fewer, if_pos fewer, text_of_fraction _ _ rest]
    · rw [if_neg fewer, if_neg fewer,
        text_of_fraction _ _ (List.append_ne_nil_of_right_ne_nil _ nonempty)]
      rfl

theorem text_of_exponential (negative : Bool) {digits : List Char} (nonempty : digits ≠ [])
    (magnitude : Int) :
    sign negative ++ realLayout.writeExponential digits magnitude =
      (exponential negative digits magnitude).text := by
  have signed : (if 0 ≤ magnitude then realLayout.exponentPlus.toList else ['-']) =
      [if 0 ≤ magnitude then '+' else '-'] := by
    split <;> rfl
  obtain ⟨digit, rest, rfl⟩ := List.exists_cons_of_ne_nil nonempty
  unfold Decimal.Layout.writeExponential
  rw [exponential, signed]
  cases rest with
  | nil => simp [text, pointText, exponentText, decimal, sign]
  | cons next rest => simp [text, pointText, exponentText, decimal, sign]

theorem leading_of_append {front : List Char} (nonempty : front ≠ [])
    (nonzero : front.head? ≠ some '0') (back : List Char) :
    (front ++ back).head? ≠ some '0' := by
  rwa [List.head?_append_of_ne_nil _ nonempty]

theorem formed_of_positional (negative : Bool) {significand : Nat} (positive : 0 < significand)
    (exponent : Int) : (positional negative (decimal significand) exponent).Formed := by
  have isDigit : ∀ c ∈ decimal significand, c.isDigit = true :=
    fun _ member => is_digit_of_mem_decimal member
  have zeros (count : Nat) : ∀ c ∈ List.replicate count '0', c.isDigit = true := by
    intro c member
    rw [List.eq_of_mem_replicate member]
    rfl
  have start := head_of_decimal positive
  have nonempty : decimal significand ≠ [] := Nat.toDigits_ne_nil
  unfold positional
  split
  · constructor
    · exact List.append_ne_nil_of_left_ne_nil nonempty _
    · exact List.forall_mem_append.mpr ⟨isDigit, zeros _⟩
    · exact .inr (leading_of_append nonempty start _)
    · simp
  · simp only
    split
    · rename_i fewer
      have some : 0 < (decimal significand).length - (-exponent).toNat := by omega
      constructor
      · rw [Ne, List.take_eq_nil_iff]
        rintro (none | empty)
        · omega
        · exact nonempty empty
      · exact fun c member => isDigit c (List.mem_of_mem_take member)
      · right
        rw [List.head?_take, if_neg (by omega)]
        exact start
      · exact fun c member => isDigit c (List.mem_of_mem_drop member)
    · constructor
      · simp
      · simp
      · exact .inl rfl
      · exact List.forall_mem_append.mpr ⟨zeros _, isDigit⟩

theorem formed_of_exponential (negative : Bool) {significand : Nat} (positive : 0 < significand)
    (magnitude : Int) : (exponential negative (decimal significand) magnitude).Formed where
  whole_ne_nil := by
    rw [exponential, Ne, List.take_eq_nil_iff]
    rintro (none | empty)
    · cases none
    · exact Nat.toDigits_ne_nil empty
  whole_digits := fun _ member => is_digit_of_mem_decimal (List.mem_of_mem_take member)
  leading := by
    right
    rw [exponential, List.head?_take, if_neg (by decide)]
    exact head_of_decimal positive
  fraction_digits := fun _ member => is_digit_of_mem_decimal (List.mem_of_mem_drop member)

theorem formed_of_decimal (negative : Bool) (decimal : Decimal)
    (whole : decimal.significand = 0 → decimal.exponent = 0) :
    (ofDecimal negative decimal).Formed := by
  unfold ofDecimal
  simp only
  rcases Nat.eq_zero_or_pos decimal.significand with zero | positive
  · rw [if_pos (.inl zero), zero, whole zero]
    constructor <;> simp [positional, Text.decimal]
  · split
    · exact formed_of_positional negative positive _
    · exact formed_of_exponential negative positive _

theorem formed_of_real (value : Float) : (ofReal value).Formed := by
  unfold ofReal
  split
  · rename_i negative mantissa exponent _
    apply formed_of_decimal
    intro zero
    rcases Nat.eq_zero_or_pos mantissa with none | positive
    · rw [none]
      rfl
    · exact absurd zero (Decimal.shortest_significand_pos _ positive exponent).ne'
  · exact formed_of_integer 0

theorem significand_of_shortest_eq_zero (mantissa : Nat) (exponent : Int) :
    (Decimal.shortest .toEven mantissa exponent).significand = 0 ↔ mantissa = 0 := by
  constructor
  · intro zero
    apply Nat.eq_zero_of_not_pos
    intro positive
    exact absurd zero (Decimal.shortest_significand_pos _ positive exponent).ne'
  · intro zero
    rw [zero]
    rfl

theorem text_of_decimal (negative : Bool) (decimal : Decimal) (isZero : Prop) [Decidable isZero]
    (zero : decimal.significand = 0 ↔ isZero) :
    sign negative ++
        (if isZero ∨ realLayout.positional
            (decimal.exponent + (Text.decimal decimal.significand).length - 1) then
          realLayout.writePositional (Text.decimal decimal.significand) decimal.exponent
        else realLayout.writeExponential (Text.decimal decimal.significand)
          (decimal.exponent + (Text.decimal decimal.significand).length - 1)) =
      (ofDecimal negative decimal).text := by
  rw [ofDecimal]
  simp only [zero]
  split
  · exact text_of_positional negative Nat.toDigits_ne_nil _
  · exact text_of_exponential negative Nat.toDigits_ne_nil _

theorem text_of_real {value : Float} (finite : Ieee.isFinite value = true) :
    writeReal value = (ofReal value).text := by
  rw [writeReal, if_pos finite, Decimal.Layout.write, ofReal]
  unfold Ieee.isFinite at finite
  split at finite
  · rename_i negative mantissa exponent number
    simp only [number]
    exact text_of_decimal negative _ _ (significand_of_shortest_eq_zero mantissa exponent)
  · cases finite

end Numeral

end Achievements.Json
