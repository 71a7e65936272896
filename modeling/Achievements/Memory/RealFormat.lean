import Achievements.Ieee.Convert

/-!
# Four-byte floating-point formats

Besides the 32-bit interchange format, memory may hold the upper half of a 64-bit double, or a
number in Microsoft Binary Format: an exponent byte biased by 128, a sign bit, and 23 bits of a
fraction whose leading bit is implied, a zero exponent byte standing for zero. `RealFormat.decode`
and `RealFormat.encode` go between a four-byte pattern, most significant byte first, and a double.
The loops that encode a double in Microsoft Binary Format do not end from every estimate of its
exponent; `RealFormat.encode?` is the pattern as far as they do.
-/

set_option autoImplicit false

namespace Achievements

/-- Four-byte floating-point formats. -/
inductive RealFormat where
  /-- The 32-bit interchange format. -/
  | single
  /-- The most significant half of the 64-bit interchange format. -/
  | doubleTop
  /-- Microsoft Binary Format: an exponent byte, then sign and fraction. -/
  | microsoft
  deriving DecidableEq, Repr, Inhabited

namespace Microsoft

/-- The double that a pattern stands for, exponent byte first. -/
def decode (pattern : Nat) : Float :=
  let exponent : Nat := pattern / 0x1000000
  if exponent = 0 then Ieee.doubleOfRatio false 0 1
  else
    let negative := pattern / 0x800000 % 2 == 1
    Ieee.doubleOfDatum (.finite negative (0x800000 + pattern % 0x800000) ((exponent : Int) - 152))

/-- The binary exponent of `mantissa · 2 ^ exponent`: the number lies between one half and one
times that power of two. -/
def binaryExponent (mantissa : Nat) (exponent : Int) : Int :=
  (mantissa.log2 : Int) + exponent + 1

/-- Raises an exponent estimate until the fraction left over is below one. -/
def raiseBelowOne (mantissa : Nat) (exponent estimate : Int) : Int :=
  if binaryExponent mantissa exponent > estimate then
    raiseBelowOne mantissa exponent (estimate + 1)
  else estimate
termination_by (binaryExponent mantissa exponent - estimate).toNat
decreasing_by omega

/-- Lowers an exponent estimate until the fraction left over is at least one half. -/
def lowerToHalf (mantissa : Nat) (exponent estimate : Int) : Int :=
  if binaryExponent mantissa exponent < estimate then
    lowerToHalf mantissa exponent (estimate - 1)
  else estimate
termination_by (estimate - binaryExponent mantissa exponent).toNat
decreasing_by omega

/-- The pattern of a double, where the search for its exponent ends that starts from an estimate. The
fraction is cut off after 24 bits. Zero, values that are not finite, and exponents that the format
does not have, give the pattern of zero. -/
def encodeFrom (estimate : Int) (value : Float) : Nat :=
  match Ieee.datum value with
  | .finite negative mantissa exponent =>
      if mantissa = 0 then 0
      else
        let power := lowerToHalf mantissa exponent (raiseBelowOne mantissa exponent estimate)
        let biased := power + 128
        if biased < 1 ∨ 255 < biased then 0
        else
          let significand := min (Ieee.wholePart mantissa (exponent - power + 24)) 0xFFFFFF
          biased.toNat * 0x1000000 + (if negative then 0x800000 else 0) + significand % 0x800000
  | _ => 0

/-- The pattern of a double, exponent byte first, where the search for its exponent ends. -/
def encode (value : Float) : Nat :=
  match Ieee.datum value with
  | .finite _ mantissa exponent => encodeFrom (binaryExponent mantissa exponent) value
  | _ => 0

/-- The double nearest to a power of two. -/
def powerOfTwo (exponent : Int) : Float :=
  Ieee.doubleOfDatum (.finite false 1 exponent)

/-- Does the search end that starts by dividing by a power of two? If the power is infinite, the
fraction left over is zero and is doubled forever; if it is zero, the fraction is infinite and is
halved forever. -/
def searchEnds (power : Float) : Bool :=
  match Ieee.datum power with
  | .finite _ mantissa _ => mantissa != 0
  | _ => false

/-- The pattern of a double, as far as the search for its exponent ends. Zero and values that are
not finite take no search. -/
def encodeFrom? (power : Float) (estimate : Int) (value : Float) : Option Nat :=
  match Ieee.datum value with
  | .finite _ mantissa _ =>
      if mantissa = 0 || searchEnds power then some (encodeFrom estimate value) else none
  | _ => some 0

end Microsoft

/-- What is left to the platform that a program runs on, and to the way it was built. -/
structure Platform where
  /-- The whole part of the binary logarithm of a double. -/
  log : Float → Int
  /-- The logarithm may be rounded, so its whole part is off by one at most. -/
  log_near : ∀ {value : Float} {negative : Bool} {mantissa : Nat} {exponent : Int},
    Ieee.datum value = .finite negative mantissa exponent → mantissa ≠ 0 →
      Microsoft.binaryExponent mantissa exponent ≤ log value + 2 ∧
        log value ≤ Microsoft.binaryExponent mantissa exponent
  /-- A power of two. -/
  power : Int → Float
  /-- Powers of two are exact, unless one is taken for the reciprocal of infinity. -/
  power_eq : ∀ exponent, power exponent = Microsoft.powerOfTwo exponent ∨
    exponent < -1022 ∧ power exponent = 0
  /-- Does the program break off at a sum that does not fit its type? Otherwise it wraps around. -/
  checksSums : Bool

namespace Platform

/-- A platform with exact logarithms, on which negative powers are reciprocals and sums wrap
around. -/
def exact : Platform where
  log value :=
    match Ieee.datum value with
    | .finite _ mantissa exponent => Microsoft.binaryExponent mantissa exponent - 1
    | _ => 0
  log_near := by
    intro value negative mantissa exponent number _
    simp only [number]
    omega
  power exponent := if exponent < -1023 then 0 else Microsoft.powerOfTwo exponent
  power_eq := by
    intro exponent
    split
    · exact .inr ⟨by omega, rfl⟩
    · exact .inl rfl
  checksSums := false

end Platform

namespace RealFormat

/-- The double that a four-byte pattern stands for. -/
def decode (format : RealFormat) (pattern : Nat) : Float :=
  match format with
  | .single => Ieee.widen (UInt32.ofNat pattern)
  | .doubleTop => Ieee.doubleOfBits (pattern * 0x100000000)
  | .microsoft => Microsoft.decode pattern

/-- The four-byte pattern of a double. -/
def encode (format : RealFormat) (value : Float) : Nat :=
  match format with
  | .single => (Ieee.narrow value).toNat
  | .doubleTop => value.toBits.toNat / 0x100000000
  | .microsoft => Microsoft.encode value

/-- The four-byte pattern of a double, if encoding it comes to an end on a platform. -/
def encode? (platform : Platform) (format : RealFormat) (value : Float) : Option Nat :=
  match format with
  | .microsoft =>
      let estimate := platform.log value + 1
      Microsoft.encodeFrom? (platform.power estimate) estimate value
  | _ => some (format.encode value)

end RealFormat

end Achievements
