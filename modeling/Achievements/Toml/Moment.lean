import Achievements.Text.Numeral

/-!
# Dates and times

A moment is a date, a time of day, or both with a `T` or a blank between them; one with a date and
a time may end in a time zone. Days are checked against the calendar.
-/

set_option autoImplicit false

namespace Achievements.Toml

open Text

/-- The digits at the front of a text. -/
def takeDigits (text : List Char) : List Char × List Char :=
  (text.takeWhile Char.isDigit, text.dropWhile Char.isDigit)

/-- A number of an exact count of digits that lies between two bounds. -/
def takeNumber? (width low high : Nat) (text : List Char) : Option (Nat × List Char) :=
  let (digits, rest) := takeDigits text
  if digits.length = width then
    match readNat? 10 digits with
    | some value => if low ≤ value ∧ value ≤ high then some (value, rest) else none
    | none => none
  else none

/-- The text after a given character. -/
def expect? (wanted : Char) : List Char → Option (List Char)
  | c :: rest => if c = wanted then some rest else none
  | [] => none

def isLeapYear (year : Nat) : Bool :=
  year % 4 = 0 && (year % 100 ≠ 0 || year % 400 = 0)

/-- The number of days of a month. -/
def daysOf (year month : Nat) : Nat :=
  if month = 2 then if isLeapYear year then 29 else 28
  else if month = 4 ∨ month = 6 ∨ month = 9 ∨ month = 11 then 30
  else 31

/-- The text after a date. -/
def skipDate? (text : List Char) : Option (List Char) := do
  let (year, text) ← takeNumber? 4 0 9999 text
  let text ← expect? '-' text
  let (month, text) ← takeNumber? 2 1 12 text
  let text ← expect? '-' text
  let (_, text) ← takeNumber? 2 1 (daysOf year month) text
  some text

/-- The text after the fraction of a second, if there is one. -/
def skipFraction? : List Char → Option (List Char)
  | '.' :: rest =>
      let (digits, rest) := takeDigits rest
      if digits.isEmpty then none else some rest
  | text => some text

/-- The text after a time of day. Seconds may be missing, and a minute may have a leap second. -/
def skipTime? (text : List Char) : Option (List Char) := do
  let (_, text) ← takeNumber? 2 0 23 text
  let text ← expect? ':' text
  let (_, text) ← takeNumber? 2 0 59 text
  match text with
  | ':' :: rest =>
      let (_, rest) ← takeNumber? 2 0 60 rest
      skipFraction? rest
  | _ => some text

/-- The text after the distance to a time zone. -/
def skipDistance? (text : List Char) : Option (List Char) := do
  let (_, text) ← takeNumber? 2 0 23 text
  let text ← expect? ':' text
  let (_, text) ← takeNumber? 2 0 59 text
  some text

/-- The text after a time zone, if there is one. -/
def skipZone? : List Char → Option (List Char)
  | 'Z' :: rest => some rest
  | 'z' :: rest => some rest
  | '+' :: rest => skipDistance? rest
  | '-' :: rest => skipDistance? rest
  | text => some text

/-- The text after the time of day that follows a date, if there is one. -/
def skipClock? : List Char → Option (List Char)
  | [] => some []
  | c :: rest =>
      if c = 'T' ∨ c = 't' ∨ c = ' ' then (skipTime? rest).bind skipZone? else none

/-- Is the text a date? -/
def isDate (text : List Char) : Bool :=
  skipDate? text == some []

/-- Is the text a date, a time of day, or both? -/
def isMoment (text : List Char) : Bool :=
  (skipDate? text).bind skipClock? == some [] || skipTime? text == some []

end Achievements.Toml
