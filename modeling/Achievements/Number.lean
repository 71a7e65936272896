import Achievements.Ieee.Convert

/-!
# Numbers of the condition language

Everything that a condition compares is a 64-bit integer or a double. Integer arithmetic wraps
around; as soon as one side is a double the other is converted and the result is a double.
Comparison is total: a value that is not a number equals itself and is below all others.
-/

set_option autoImplicit false

namespace Achievements

/-- A value read from memory, written in a formula, or accumulated from both. -/
inductive Number where
  | int (value : Int64)
  | real (value : Float)
  deriving BEq, Inhabited

namespace Number

/-- Integer zero. -/
def zero : Number := .int 0

def isReal : Number → Bool
  | .int _ => false
  | .real _ => true

/-- The value as a double; an integer goes to the nearest one. -/
def toReal : Number → Float
  | .int value => Ieee.doubleOfInt value.toInt
  | .real value => value

/-- The value as an integer; a double loses its fraction and is clamped to the range. -/
def toInt : Number → Int64
  | .int value => value
  | .real value => Ieee.truncate value

/-- The order of two doubles, made total by placing a value that is not a number first. -/
def compareReal (left right : Float) : Ordering :=
  match left.isNaN, right.isNaN with
  | true, true => .eq
  | true, false => .lt
  | false, true => .gt
  | false, false => if left < right then .lt else if right < left then .gt else .eq

/-- The order of two integers. -/
def compareInt (left right : Int64) : Ordering :=
  if left < right then .lt else if right < left then .gt else .eq

/-- Integers are compared as integers; any other pair is compared as doubles. -/
def compare : Number → Number → Ordering
  | .int left, .int right => compareInt left right
  | left, right => compareReal left.toReal right.toReal

/-- Sum; integers wrap around. -/
def add : Number → Number → Number
  | .int left, .int right => .int (left + right)
  | left, right => .real (left.toReal + right.toReal)

/-- Difference; integers wrap around. -/
def sub : Number → Number → Number
  | .int left, .int right => .int (left - right)
  | left, right => .real (left.toReal - right.toReal)

instance : Add Number := ⟨add⟩
instance : Sub Number := ⟨sub⟩

end Number

end Achievements
