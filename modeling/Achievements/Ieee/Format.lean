/-!
# Binary interchange formats

A binary floating-point format is fixed by the widths of its fraction and exponent fields.
`Format.decode` takes a bit pattern to the number it stands for. `Format.nearest` goes the other
way: it takes a non-negative rational number to the pattern of the nearest number of the format, a
tie going to the even pattern. Both work on natural numbers alone, so every statement about a
conversion between formats, or between binary and decimal notation, is a statement about integers.
-/

set_option autoImplicit false

namespace Achievements.Ieee

/-- What a bit pattern stands for. A finite number is `± mantissa · 2 ^ exponent`; zeros keep
their sign. -/
inductive Datum where
  | nan
  | infinite (negative : Bool)
  | finite (negative : Bool) (mantissa : Nat) (exponent : Int)
  deriving DecidableEq, Repr

/-- A format: a sign bit, then the exponent field, then the fraction field. -/
structure Format where
  fractionBits : Nat
  exponentBits : Nat
  deriving DecidableEq, Repr

/-- The quotient `num / den`, rounded to the nearest integer, a tie going to the even one. -/
def divideToEven (num den : Nat) : Nat :=
  let quotient := num / den
  let twice := 2 * (num % den)
  if twice < den then quotient
  else if den < twice then quotient + 1
  else quotient + quotient % 2

/-- The largest `e` with `2 ^ e ≤ num / den`, for positive `num` and `den`. -/
def floorLog2 (num den : Nat) : Int :=
  let estimate : Int := (num.log2 : Int) - den.log2
  let reached :=
    if 0 ≤ estimate then decide (den * Nat.pow 2 estimate.toNat ≤ num)
    else decide (den ≤ num * Nat.pow 2 (-estimate).toNat)
  if reached then estimate else estimate - 1

namespace Format

/-- The 32-bit format. -/
def single : Format := ⟨23, 8⟩

/-- The 64-bit format. -/
def double : Format := ⟨52, 11⟩

/-- The exponent field of infinities and of values that are not numbers. -/
def topField (format : Format) : Nat :=
  Nat.pow 2 format.exponentBits - 1

/-- The exponent of the unit in the last place of the smallest numbers. -/
def lowest (format : Format) : Int :=
  2 - (Nat.pow 2 (format.exponentBits - 1) : Nat) - format.fractionBits

/-- The weight of the sign bit. -/
def signBit (format : Format) : Nat :=
  Nat.pow 2 (format.fractionBits + format.exponentBits)

/-- The pattern of positive infinity. -/
def infinity (format : Format) : Nat :=
  format.topField * Nat.pow 2 format.fractionBits

/-- The pattern of the quiet value that is not a number. -/
def quietNaN (format : Format) : Nat :=
  format.infinity + Nat.pow 2 (format.fractionBits - 1)

/-- The number that a bit pattern stands for. -/
def decode (format : Format) (bits : Nat) : Datum :=
  let fraction := bits % Nat.pow 2 format.fractionBits
  let field := bits / Nat.pow 2 format.fractionBits % Nat.pow 2 format.exponentBits
  let negative := bits / format.signBit % 2 == 1
  if field = format.topField then
    if fraction = 0 then .infinite negative else .nan
  else if field = 0 then
    .finite negative fraction format.lowest
  else
    .finite negative (Nat.pow 2 format.fractionBits + fraction) (format.lowest + (field - 1 : Nat))

/-- The pattern of the number nearest to `num / den`, or of infinity when the quotient rounds
beyond the largest number. The exponent of the last place is chosen first, then the quotient by
that unit is rounded. Since the fields adjoin, a carry out of the fraction lands in the exponent,
and "smallest exponent field plus implicit bit" is the same sum as the subnormal pattern. -/
def nearest (format : Format) (num den : Nat) : Nat :=
  if num = 0 then 0
  else
    let unit := max format.lowest (floorLog2 num den - format.fractionBits)
    let significand :=
      if 0 ≤ unit then divideToEven num (den * Nat.pow 2 unit.toNat)
      else divideToEven (num * Nat.pow 2 (-unit).toNat) den
    min format.infinity
      ((unit - format.lowest).toNat * Nat.pow 2 format.fractionBits + significand)

/-- `nearest` with a sign. -/
def nearestSigned (format : Format) (negative : Bool) (num den : Nat) : Nat :=
  (if negative then format.signBit else 0) + format.nearest num den

/-- `mantissa · 2 ^ exponent` with a sign, rounded to the format. -/
def nearestScaled (format : Format) (negative : Bool) (mantissa : Nat) (exponent : Int) : Nat :=
  if 0 ≤ exponent then format.nearestSigned negative (mantissa * Nat.pow 2 exponent.toNat) 1
  else format.nearestSigned negative mantissa (Nat.pow 2 (-exponent).toNat)

/-- The pattern of a datum, rounded to the format. -/
def encode (format : Format) : Datum → Nat
  | .nan => format.quietNaN
  | .infinite negative => (if negative then format.signBit else 0) + format.infinity
  | .finite negative mantissa exponent => format.nearestScaled negative mantissa exponent

end Format

end Achievements.Ieee
