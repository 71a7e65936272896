/-!
# Numerals

Reading unsigned and signed integers in a positional base, with and without a sign, within bounds.
A numeral out of bounds is refused rather than wrapped.
-/

set_option autoImplicit false

namespace Achievements.Text

/-- The value of an ASCII digit, letters of either case standing for ten and above. -/
def digitValue? (c : Char) : Option Nat :=
  if '0' ≤ c ∧ c ≤ '9' then some (c.toNat - 48)
  else if 'a' ≤ c ∧ c ≤ 'z' then some (c.toNat - 87)
  else if 'A' ≤ c ∧ c ≤ 'Z' then some (c.toNat - 55)
  else none

/-- An ASCII hexadecimal digit. -/
def isHexDigit (c : Char) : Bool :=
  match digitValue? c with
  | some value => value < 16
  | none => false

/-- The value of a run of digits that follow a number already read. -/
def readDigits (base : Nat) : Nat → List Char → Option Nat
  | value, [] => some value
  | value, c :: rest =>
      match digitValue? c with
      | some digit =>
          if digit < base then readDigits base (value * base + digit) rest else none
      | none => none

/-- A non-empty run of digits. -/
def readNat? (base : Nat) : List Char → Option Nat
  | [] => none
  | digits => readDigits base 0 digits

/-- An unsigned numeral of at most `limit`; one leading plus sign is allowed. -/
def readUnsigned? (base limit : Nat) (text : List Char) : Option Nat :=
  let digits := match text with
    | '+' :: rest => rest
    | _ => text
  match readNat? base digits with
  | some value => if value ≤ limit then some value else none
  | none => none

/-- The largest unsigned 32-bit number. -/
def limit32 : Nat := 0xFFFFFFFF

/-- The largest unsigned 64-bit number. -/
def limit64 : Nat := 0xFFFFFFFFFFFFFFFF

/-- The largest signed 64-bit number. -/
def limit63 : Nat := 0x7FFFFFFFFFFFFFFF

/-- A signed decimal numeral in the range of 64-bit integers; one leading sign is allowed. -/
def readInt64? (text : List Char) : Option Int64 :=
  match text with
  | '-' :: digits =>
      match readNat? 10 digits with
      | some value => if value ≤ limit63 + 1 then some (Int64.ofInt (-value)) else none
      | none => none
  | _ =>
      match readUnsigned? 10 limit63 text with
      | some value => some (Int64.ofNat value)
      | none => none

/-- The decimal numeral of a natural number. -/
def decimal (value : Nat) : List Char :=
  Nat.toDigits 10 value

/-- The decimal numeral of an integer, with a minus sign when it is negative. -/
def signedDecimal (value : Int) : List Char :=
  if value < 0 then '-' :: decimal value.natAbs else decimal value.natAbs

/-- The lower-case hexadecimal numeral of a natural number, padded with zeros to a width. -/
def hexadecimal (width value : Nat) : List Char :=
  let digits := Nat.toDigits 16 value
  List.replicate (width - digits.length) '0' ++ digits

/-- Upper-case hexadecimal numeral. -/
def upperHexadecimal (value : Nat) : List Char :=
  (Nat.toDigits 16 value).map Char.toUpper

/-- A text preceded by blanks up to a width. -/
def padStart (width : Nat) (text : List Char) : List Char :=
  List.replicate (width - text.length) ' ' ++ text

/-- Equality of two texts up to the case of ASCII letters. -/
def equalIgnoringAsciiCase (left right : List Char) : Bool :=
  left.map Char.toLower == right.map Char.toLower

end Achievements.Text
