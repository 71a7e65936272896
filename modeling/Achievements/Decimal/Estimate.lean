import Achievements.Decimal.Shortest
import Achievements.Text.Numeral

/-!
# Reading a decimal in two roundings

`Decimal.toDouble` is the double nearest to a decimal. Documents are read in a faster way, which can
miss it by the last place: the digits, as many as fit 64 bits, and the power of ten are rounded to a
double each, and their product or quotient is rounded again.
-/

set_option autoImplicit false

namespace Achievements

namespace Ieee

/-- The magnitude of a finite double as a fraction. -/
def ratio (value : Float) : Nat × Nat :=
  match datum value with
  | .finite _ mantissa exponent =>
      if 0 ≤ exponent then (mantissa * Nat.pow 2 exponent.toNat, 1)
      else (mantissa, Nat.pow 2 (-exponent).toNat)
  | _ => (0, 1)

/-- The product of two magnitudes, with a sign. -/
def product (negative : Bool) (first second : Float) : Float :=
  doubleOfRatio negative ((ratio first).1 * (ratio second).1) ((ratio first).2 * (ratio second).2)

/-- The quotient of two magnitudes, with a sign. -/
def quotient (negative : Bool) (first second : Float) : Float :=
  doubleOfRatio negative ((ratio first).1 * (ratio second).2) ((ratio first).2 * (ratio second).1)

end Ieee

namespace Decimal

/-- As many digits as fit 64 bits after the digits of a significand, and the digits that do not. -/
def takeFitting : Nat → List Char → Nat × List Char
  | significand, [] => (significand, [])
  | significand, c :: rest =>
      let longer := 10 * significand + (c.toNat - 48)
      if longer ≤ Text.limit64 then takeFitting longer rest else (significand, c :: rest)

/-- The decimal of digits before and after a point. Of those that do not fit, the ones before the
point still count as places. -/
def ofDigits (whole fraction : List Char) (exponent : Int) : Decimal :=
  let (significand, lost) := takeFitting 0 whole
  let (significand, ignored) := takeFitting significand fraction
  ⟨significand, exponent + lost.length - (fraction.length - ignored.length : Nat)⟩

/-- The largest exponent of a power of ten that is a finite double. -/
def topPower : Nat := 308

/-- The double nearest to a power of ten. -/
def powerOfTen (exponent : Nat) : Float :=
  Ieee.doubleOfRatio false (Nat.pow 10 exponent) 1

/-- The double that a decimal with a sign is read as. Exponents beyond the powers of ten are taken in
two steps downwards, and refused upwards. -/
def estimate (negative : Bool) (decimal : Decimal) : Float :=
  let start := Ieee.doubleOfRatio false decimal.significand 1
  let exponent := decimal.exponent
  let places := (-exponent).toNat
  if decimal.significand = 0 then Ieee.doubleOfRatio negative 0 1
  else if topPower < exponent then Ieee.doubleOfDatum (.infinite negative)
  else if 0 ≤ exponent then Ieee.product negative start (powerOfTen exponent.toNat)
  else if places ≤ topPower then Ieee.quotient negative start (powerOfTen places)
  else if places ≤ 2 * topPower then
    Ieee.quotient negative (Ieee.quotient false start (powerOfTen topPower))
      (powerOfTen (places - topPower))
  else Ieee.doubleOfRatio negative 0 1

end Decimal

end Achievements
