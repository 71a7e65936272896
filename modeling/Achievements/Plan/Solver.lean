import Achievements.Formula.Clause
import Achievements.Plan.Basic

/-!
# Solving comparisons

Which bytes make a comparison come out as desired. The operand that is written is taken as the left
side; where memory stands only on the right the converse comparison is solved. A target value is
chosen first, within the range of values that the operand can have, then the modifiers are undone
and the result is laid out in the operand's encoding. Encoding a double does not always come to an
end; `Solver.isSolved` tells whether it does.
-/

set_option autoImplicit false

namespace Achievements.Solver

/-- Does the low byte hold two decimal digits that can be written? Decimal digits mean nothing to
operands smaller than a byte. -/
def holdsDecimalDigits (access : MemoryAccess) : Bool :=
  access.modifiers.bcd &&
    match access.encoding with
    | .bit _ | .lowNibble | .highNibble | .bitCount => false
    | _ => true

/-- The largest number that the operand can hold before inversion. -/
def largest (access : MemoryAccess) : Int :=
  if holdsDecimalDigits access then min access.encoding.maximum 99 else access.encoding.maximum

/-- The complement of all bits of a signed integer. -/
def complement (value : Int) : Int :=
  -value - 1

/-- The smallest and the largest value that the operand can have. -/
def range (access : MemoryAccess) : Int × Int :=
  if access.modifiers.invert then (complement (largest access), -1) else (0, largest access)

/-- A value of the range that compares as desired with a number, as far as there is one. -/
def integerTarget (comparison : Comparison) (number low high : Int) (desired : Bool) : Int :=
  let nearest := max low (min number high)
  match desired, comparison with
  | true, .eq | true, .ge | true, .le => nearest
  | true, .ne | false, .eq => if nearest = low then low + 1 else low
  | true, .gt | false, .le => min (nearest + 1) high
  | true, .lt | false, .ge => max (nearest - 1) low
  | false, .ne | false, .gt | false, .lt => nearest

/-- A double that compares as desired with another one, as long as one makes a difference to it. -/
def realTarget (comparison : Comparison) (number : Float) (desired : Bool) : Float :=
  match desired, comparison with
  | true, .eq | true, .ge | true, .le => number
  | true, .ne | true, .gt | false, .eq | false, .le => number + 1
  | true, .lt | false, .ge => number - 1
  | false, .ne | false, .gt | false, .lt => number

/-- The value of a single bit in one of its states. -/
def bitValue (access : MemoryAccess) (state : Int) : Int :=
  if access.modifiers.invert then complement state else state

/-- The value of a single bit that compares as desired. A set bit is preferred to make the
comparison true and a clear bit to make it false; it is also taken when neither state will do. -/
def bitTarget (access : MemoryAccess) (comparison : Comparison) (number : Number)
    (desired : Bool) : Int :=
  let (preferred, other) : Int × Int := if desired then (1, 0) else (0, 1)
  let holds (state : Int) : Bool :=
    comparison.holds (Number.compare (.int (Int64.ofInt (bitValue access state))) number)
  if holds preferred == desired then bitValue access preferred
  else if holds other == desired then bitValue access other
  else bitValue access preferred

/-- The number that an operand has to hold to have a value: inversion undone, then decimal
digits. -/
def undoModifiers (access : MemoryAccess) (value : Int) : Nat :=
  let decoded := if access.modifiers.invert then complement value else value
  let held := (max 0 (min decoded (largest access))).toNat
  if holdsDecimalDigits access then held / 10 * 16 + held % 10 else held

/-- The writes that make an operand hold a number. -/
def writesOfHeld (access : MemoryAccess) (held : Nat) : List ByteWrite :=
  let address := access.address
  match access.encoding with
  | .bit index =>
      let place := Nat.pow 2 index.val
      [⟨address, UInt8.ofNat (held % 2 * place), UInt8.ofNat place⟩]
  | .lowNibble => [⟨address, UInt8.ofNat (held % 16), 0x0F⟩]
  | .highNibble => [⟨address, UInt8.ofNat (held % 16 * 16), 0xF0⟩]
  | .byte => [{ address, value := UInt8.ofNat held }]
  | .bitCount => [{ address, value := UInt8.ofNat (Nat.pow 2 (min held 8) - 1) }]
  | .word16 order | .word24 order | .word32 order =>
      ByteWrite.consecutive address (Encoding.digits order access.encoding.byteLength held)
  | .untagged => ByteWrite.consecutive address (Encoding.digits .littleEndian 2 held)
  | .real .. =>
      ByteWrite.consecutive address (access.encoding.realBytes (Ieee.doubleOfInt held))

/-- The writes that give an operand an integer value. -/
def writesOfValue (access : MemoryAccess) (value : Int) : List ByteWrite :=
  writesOfHeld access (undoModifiers access value)

/-- The writes that make the comparison of an operand with a number come out as desired. -/
def writesFor (access : MemoryAccess) (comparison : Comparison) (number : Number)
    (desired : Bool) : List ByteWrite :=
  if access.encoding.isReal then
    ByteWrite.consecutive access.address
      (access.encoding.realBytes (realTarget comparison number.toReal desired))
  else
    let target :=
      match access.encoding.bitIndex? with
      | some _ => bitTarget access comparison number desired
      | none =>
          let (low, high) := range access
          integerTarget comparison number.toInt.toInt low high desired
    writesOfValue access target

/-- The number that memory is compared with; a side that is no constant counts as one. -/
def numberOf (operand : Operand) : Number :=
  operand.constant?.getD (.int 1)

/-- The writes that make a clause come out as desired; none when neither side reads memory. -/
def solve (clause : Clause) (desired : Bool) : List ByteWrite :=
  match clause.left, clause.right with
  | .memory access, other => writesFor access clause.comparison (numberOf other) desired
  | other, .memory access =>
      writesFor access clause.comparison.converse (numberOf other) desired
  | _, _ => []

/-- Does it come to an end on a platform to give an operand an integer value? -/
def isGiven (platform : Platform) (access : MemoryAccess) (value : Int) : Bool :=
  access.encoding.isEncoded platform (Ieee.doubleOfInt (undoModifiers access value))

/-- The operand that is written to make a clause come out as desired, and the double that it is
given if it holds one. -/
def realOf? (clause : Clause) (desired : Bool) : Option (MemoryAccess × Float) :=
  match clause.left, clause.right with
  | .memory access, other =>
      some (access, realTarget clause.comparison (numberOf other).toReal desired)
  | other, .memory access =>
      some (access, realTarget clause.comparison.converse (numberOf other).toReal desired)
  | _, _ => none

/-- Does it come to an end on a platform to make a clause come out as desired? -/
def isSolved (platform : Platform) (clause : Clause) (desired : Bool) : Bool :=
  (realOf? clause desired).all fun (access, value) => access.encoding.isEncoded platform value

end Achievements.Solver
