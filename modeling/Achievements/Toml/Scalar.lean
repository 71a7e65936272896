import Achievements.Decimal.Shortest
import Achievements.Toml.Moment
import Achievements.Toml.Value

/-!
# Values without quotes

Booleans, integers, reals and moments are written without quotes. Underscores may separate the
digits of a number.
-/

set_option autoImplicit false

namespace Achievements.Toml

open Text

/-- The digits of a numeral, in which single underscores may stand between digits. -/
def digitGroups? (isDigit : Char → Bool) : List Char → Option (List Char)
  | [] => none
  | [c] => if isDigit c then some [c] else none
  | c :: '_' :: rest => if isDigit c then (digitGroups? isDigit rest).map (c :: ·) else none
  | c :: rest => if isDigit c then (digitGroups? isDigit rest).map (c :: ·) else none

/-- A numeral in a base. -/
def readGrouped? (base : Nat) (text : List Char) : Option Nat := do
  let digits ← digitGroups? (fun c => (digitValue? c).any (· < base)) text
  readNat? base digits

/-- A decimal numeral that has no zeros in front. -/
def readWhole? (text : List Char) : Option Nat :=
  match text with
  | '0' :: _ :: _ => none
  | _ => readGrouped? 10 text

/-- Is the number negative, and its text without the sign. -/
def takeSign : List Char → Bool × List Char
  | '-' :: rest => (true, rest)
  | '+' :: rest => (false, rest)
  | text => (false, text)

/-- An integer of at most 128 bits, signed or unsigned. -/
def boundInteger? (value : Int) : Option Int :=
  if -(Nat.pow 2 127 : Nat) ≤ value ∧ value < Nat.pow 2 128 then some value else none

/-- An integer. Only decimal integers may have a sign. -/
def readInteger? : List Char → Option Int
  | '0' :: 'x' :: digits => (readGrouped? 16 digits).bind fun value => boundInteger? value
  | '0' :: 'o' :: digits => (readGrouped? 8 digits).bind fun value => boundInteger? value
  | '0' :: 'b' :: digits => (readGrouped? 2 digits).bind fun value => boundInteger? value
  | text =>
      let (negative, digits) := takeSign text
      (readWhole? digits).bind fun value => boundInteger? (if negative then -value else value)

/-- The run of digits and underscores at the front of a text. -/
def takeGrouped (text : List Char) : List Char × List Char :=
  let inside (c : Char) : Bool := c.isDigit || c == '_'
  (text.takeWhile inside, text.dropWhile inside)

/-- The exponent that ends a real; none stands for zero. -/
def readExponent? : List Char → Option Int
  | [] => some 0
  | c :: rest =>
      if c = 'e' ∨ c = 'E' then
        let (negative, digits) := takeSign rest
        (readGrouped? 10 digits).map fun value => if negative then -value else value
      else none

/-- The digits after the point of a real and what follows them; none if there is no point. -/
def takeFraction? : List Char → Option (List Char × List Char)
  | '.' :: rest =>
      let (fraction, rest) := takeGrouped rest
      (digitGroups? Char.isDigit fraction).map fun digits => (digits, rest)
  | text => some ([], text)

/-- A decimal with a point or an exponent, as the nearest double, which has to be finite. -/
def readDecimal? (negative : Bool) (text : List Char) : Option Float := do
  let (whole, text) := takeGrouped text
  let value ← readWhole? whole
  let (fraction, text) ← takeFraction? text
  let exponent ← readExponent? text
  let places : Int := fraction.length
  let significand ← readDigits 10 value fraction
  let real := Decimal.toDouble negative ⟨significand, exponent - places⟩
  if Ieee.isFinite real then some real else none

/-- A real. -/
def readReal? (text : List Char) : Option Float :=
  let (negative, unsigned) := takeSign text
  if unsigned = "inf".toList then some (Ieee.doubleOfDatum (.infinite negative))
  else if unsigned = "nan".toList then some (Ieee.doubleOfDatum .nan)
  else readDecimal? negative unsigned

/-- A value without quotes. -/
def readScalar? (text : List Char) : Option Value :=
  if text = "true".toList then some (.boolean true)
  else if text = "false".toList then some (.boolean false)
  else if isMoment text then some .moment
  else
    match readInteger? text with
    | some value => some (.integer value)
    | none => (readReal? text).map .real

/-- Can the character be inside a value without quotes? -/
def isScalarChar (c : Char) : Bool :=
  c.isAlphanum || c == '_' || c == '+' || c == '-' || c == '.' || c == ':'

/-- The text of a value without quotes, and what follows it. A blank ends it, except one between a
date and a time. -/
def takeScalar (text : List Char) : List Char × List Char :=
  let run := text.takeWhile isScalarChar
  match text.dropWhile isScalarChar with
  | ' ' :: digit :: rest =>
      if digit.isDigit && isDate run then
        (run ++ ' ' :: (digit :: rest).takeWhile isScalarChar,
          (digit :: rest).dropWhile isScalarChar)
      else (run, ' ' :: digit :: rest)
  | rest => (run, rest)

end Achievements.Toml
