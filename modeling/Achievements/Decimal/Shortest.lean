import Achievements.Ieee.Convert

/-!
# The shortest decimal that reads back

A double is written with the fewest significant digits that a correct reader takes back to it and,
among the decimals of that length, with the nearest one. The set of rational numbers that round to
a double is an interval around it; each candidate is one of the two neighbours of the double on a
decimal grid, and the coarsest grid with a neighbour inside the interval wins. A finite double is
itself a decimal, which stands in when no grid of seventeen digits hits.

`Decimal.toDouble` is the reader: the double nearest to a decimal.
-/

set_option autoImplicit false

namespace Achievements

/-- The number `significand · 10 ^ exponent`. -/
structure Decimal where
  significand : Nat
  exponent : Int
  deriving DecidableEq, Repr, Inhabited

namespace Decimal

/-- Which of two equally near decimals is written. -/
inductive Tie where
  /-- The larger one. -/
  | up
  /-- The one with the even last digit. -/
  | toEven
  deriving DecidableEq, Repr

/-- `num / den · 10 ^ (-exponent)` as a fraction: the position on the grid of `10 ^ exponent`. -/
def onGrid (num den : Nat) (exponent : Int) : Nat × Nat :=
  if 0 ≤ exponent then (num, den * Nat.pow 10 exponent.toNat)
  else (num * Nat.pow 10 (-exponent).toNat, den)

/-- The largest `e` with `10 ^ e ≤ num / den`, for positive `num` and `den`. The binary logarithm
gives an estimate that is off by at most one. -/
def floorLog10 (num den : Nat) : Int :=
  let estimate := (((num.log2 : Int) - den.log2) * 1233).fdiv 4096
  let (scaled, unit) := onGrid num den estimate
  if scaled < unit then estimate - 1
  else if 10 * unit ≤ scaled then estimate + 1
  else estimate

/-- The rational numbers that round to a double: those between `low / den` and `high / den`, ends
included exactly when the double's pattern is even. -/
structure Interval where
  low : Nat
  value : Nat
  high : Nat
  den : Nat
  closed : Bool

/-- The rounding interval of `mantissa · 2 ^ exponent`. The gap below a power of two is half the
gap above it, unless the number is already on the finest grid. All three numerators are taken at a
quarter of the unit in the last place. -/
def Interval.around (mantissa : Nat) (exponent : Int) : Interval :=
  let format := Ieee.Format.double
  let low :=
    if mantissa = Nat.pow 2 format.fractionBits ∧ exponent ≠ format.lowest then 4 * mantissa - 1
    else 4 * mantissa - 2
  let scale := if 2 ≤ exponent then Nat.pow 2 (exponent - 2).toNat else 1
  { low := low * scale
    value := 4 * mantissa * scale
    high := (4 * mantissa + 2) * scale
    den := if 2 ≤ exponent then 1 else Nat.pow 2 (2 - exponent).toNat
    closed := mantissa % 2 == 0 }

/-- Does `point · 10 ^ exponent` lie in the interval? -/
def Interval.contains (interval : Interval) (point : Nat) (exponent : Int) : Bool :=
  let (low, unit) := onGrid interval.low interval.den exponent
  let (high, _) := onGrid interval.high interval.den exponent
  if interval.closed then low ≤ point * unit && point * unit ≤ high
  else low < point * unit && point * unit < high

/-- The better neighbour of the interval's value on the grid of `10 ^ exponent`, if one of the two
lies inside. -/
def Interval.pick (interval : Interval) (tie : Tie) (exponent : Int) : Option Nat :=
  let (scaled, unit) := onGrid interval.value interval.den exponent
  let below := scaled / unit
  match interval.contains below exponent, interval.contains (below + 1) exponent with
  | false, false => none
  | true, false => some below
  | false, true => some (below + 1)
  | true, true =>
      let twice := 2 * (scaled % unit)
      if twice < unit then some below
      else if unit < twice then some (below + 1)
      else match tie with
        | .up => some (below + 1)
        | .toEven => some (below + below % 2)

/-- Tries `count` grids, each ten times finer than the one before. -/
def Interval.search (interval : Interval) (tie : Tie) : Nat → Int → Option Decimal
  | 0, _ => none
  | count + 1, exponent =>
      match interval.pick tie exponent with
      | some point => some ⟨point, exponent⟩
      | none => interval.search tie count (exponent - 1)

/-- Moves trailing zeros of the significand into the exponent, at most `count` of them. -/
def trimZeros : Nat → Decimal → Decimal
  | 0, decimal => decimal
  | count + 1, decimal =>
      if decimal.significand ≠ 0 ∧ decimal.significand % 10 = 0 then
        trimZeros count ⟨decimal.significand / 10, decimal.exponent + 1⟩
      else decimal

/-- `mantissa · 2 ^ exponent` as a decimal, exactly. -/
def exact (mantissa : Nat) (exponent : Int) : Decimal :=
  if 0 ≤ exponent then ⟨mantissa * Nat.pow 2 exponent.toNat, 0⟩
  else ⟨mantissa * Nat.pow 5 (-exponent).toNat, exponent⟩

/-- The shortest decimal that reads back as the double `mantissa · 2 ^ exponent`. -/
def shortest (tie : Tie) (mantissa : Nat) (exponent : Int) : Decimal :=
  if mantissa = 0 then ⟨0, 0⟩
  else
    let interval := Interval.around mantissa exponent
    let found :=
      (interval.search tie 17 (floorLog10 interval.value interval.den)).getD
        (exact mantissa exponent)
    trimZeros 20 found

/-- The double nearest to a decimal with a sign. Exponents that leave no doubt are settled without
forming the power of ten. -/
def toDouble (negative : Bool) (decimal : Decimal) : Float :=
  let magnitude := decimal.significand
  if magnitude = 0 then Ieee.doubleOfRatio negative 0 1
  else if 400 < decimal.exponent then Ieee.doubleOfDatum (.infinite negative)
  else if decimal.exponent + magnitude.log2 < -400 then Ieee.doubleOfRatio negative 0 1
  else if 0 ≤ decimal.exponent then
    Ieee.doubleOfRatio negative (magnitude * Nat.pow 10 decimal.exponent.toNat) 1
  else Ieee.doubleOfRatio negative magnitude (Nat.pow 10 (-decimal.exponent).toNat)

end Decimal

end Achievements
