import Achievements.Decimal.Shortest

/-!
# Layouts of decimal text

The digits of a double are one matter and their layout is another: where positional notation ends,
whether a whole number keeps a `.0`, how an exponent is marked. A `Layout` records one set of those
decisions, and `Layout.write` applies it.
-/

set_option autoImplicit false

namespace Achievements.Decimal

/-- The decisions that turn the digits of a double into text. -/
structure Layout where
  /-- Is a number of this decimal magnitude (the exponent of its leading digit) positional? -/
  positional : Int → Bool
  /-- What a whole number in positional notation ends with. -/
  wholeSuffix : String
  /-- What comes before the digits of a non-negative exponent. -/
  exponentPlus : String
  tie : Tie
  nan : String
  infinity : String

namespace Layout

/-- A magnitude in positional notation. -/
def writePositional (layout : Layout) (digits : List Char) (exponent : Int) : List Char :=
  if 0 ≤ exponent then
    digits ++ List.replicate exponent.toNat '0' ++ layout.wholeSuffix.toList
  else
    let places := (-exponent).toNat
    if places < digits.length then
      digits.take (digits.length - places) ++ '.' :: digits.drop (digits.length - places)
    else '0' :: '.' :: List.replicate (places - digits.length) '0' ++ digits

/-- A magnitude with one digit before the point and an exponent. -/
def writeExponential (layout : Layout) (digits : List Char) (magnitude : Int) : List Char :=
  let mantissa :=
    match digits with
    | [] => []
    | [digit] => [digit]
    | digit :: rest => digit :: '.' :: rest
  let sign := if 0 ≤ magnitude then layout.exponentPlus.toList else ['-']
  mantissa ++ 'e' :: sign ++ Nat.toDigits 10 magnitude.natAbs

/-- The text of a double. -/
def write (layout : Layout) (value : Float) : List Char :=
  match Ieee.datum value with
  | .nan => layout.nan.toList
  | .infinite negative => (if negative then ['-'] else []) ++ layout.infinity.toList
  | .finite negative mantissa exponent =>
      let decimal := shortest layout.tie mantissa exponent
      let digits := Nat.toDigits 10 decimal.significand
      let magnitude := decimal.exponent + digits.length - 1
      let body :=
        if mantissa = 0 ∨ layout.positional magnitude then
          layout.writePositional digits decimal.exponent
        else layout.writeExponential digits magnitude
      (if negative then ['-'] else []) ++ body

end Layout

end Achievements.Decimal
