import Achievements.Ieee.Format

/-!
# Conversions of double-precision numbers

`Float` is the 64-bit format. This module converts it to and from the 32-bit format, exact
fractions and 64-bit integers, always through the integer view of `Ieee.Format`.
-/

set_option autoImplicit false

namespace Achievements.Ieee

/-- The number that a double stands for. -/
def datum (value : Float) : Datum :=
  Format.double.decode value.toBits.toNat

/-- The double with the given bit pattern. -/
def doubleOfBits (bits : Nat) : Float :=
  Float.ofBits (UInt64.ofNat bits)

/-- The double nearest to a datum. -/
def doubleOfDatum (value : Datum) : Float :=
  doubleOfBits (Format.double.encode value)

/-- The double nearest to `± num / den`. -/
def doubleOfRatio (negative : Bool) (num den : Nat) : Float :=
  doubleOfBits (Format.double.nearestSigned negative num den)

/-- The double nearest to an integer. -/
def doubleOfInt (value : Int) : Float :=
  doubleOfRatio (value < 0) value.natAbs 1

/-- The double equal to a single-precision pattern: every single is a double. -/
def widen (bits : UInt32) : Float :=
  doubleOfDatum (Format.single.decode bits.toNat)

/-- The single-precision pattern nearest to a double. -/
def narrow (value : Float) : UInt32 :=
  UInt32.ofNat (Format.single.encode (datum value))

/-- The whole part of `mantissa · 2 ^ exponent`. -/
def wholePart (mantissa : Nat) (exponent : Int) : Nat :=
  if 0 ≤ exponent then mantissa * Nat.pow 2 exponent.toNat
  else mantissa / Nat.pow 2 (-exponent).toNat

/-- The whole part of a double as a 64-bit integer: values out of range go to the nearest end of
the range, and a value that is not a number goes to zero. -/
def truncate (value : Float) : Int64 :=
  match datum value with
  | .nan => 0
  | .infinite negative => if negative then Int64.minValue else Int64.maxValue
  | .finite negative mantissa exponent =>
      let whole : Int := wholePart mantissa exponent
      let signed := if negative then -whole else whole
      Int64.ofInt (max Int64.minValue.toInt (min signed Int64.maxValue.toInt))

/-- Is the double neither infinite nor a value that is not a number? -/
def isFinite (value : Float) : Bool :=
  match datum value with
  | .finite .. => true
  | _ => false

end Achievements.Ieee
