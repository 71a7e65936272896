import Achievements.Memory.Encoding
import Achievements.Text.Numeral

/-!
# Memory accesses

A memory access names an address, the encoding of the value there, and modifiers: whether the
change since the last frame is meant, or the value two frames ago, whether the low byte holds two
decimal digits, and whether all bits are inverted.
-/

set_option autoImplicit false

namespace Achievements

/-- Modifiers of a memory access. -/
structure Modifiers where
  /-- The current value less the value of the previous frame. -/
  delta : Bool := false
  /-- The value two frames ago. -/
  prior : Bool := false
  /-- The low byte as two decimal digits. -/
  bcd : Bool := false
  /-- The complement of all 64 bits. -/
  invert : Bool := false
  deriving DecidableEq, Repr, Inhabited

namespace Modifiers

/-- The modifiers of either side. -/
def union (left right : Modifiers) : Modifiers :=
  { delta := left.delta || right.delta
    prior := left.prior || right.prior
    bcd := left.bcd || right.bcd
    invert := left.invert || right.invert }

/-- The modifiers as the low four bits of a number. -/
def toBits (modifiers : Modifiers) : Nat :=
  modifiers.delta.toNat + 2 * modifiers.prior.toNat + 4 * modifiers.bcd.toNat +
    8 * modifiers.invert.toNat

/-- The modifiers in the low four bits of a number; higher bits have no meaning. -/
def ofBits (bits : Nat) : Modifiers :=
  { delta := bits.testBit 0
    prior := bits.testBit 1
    bcd := bits.testBit 2
    invert := bits.testBit 3 }

theorem ofBits_toBits (modifiers : Modifiers) : ofBits modifiers.toBits = modifiers := by
  obtain ⟨delta, prior, bcd, invert⟩ := modifiers
  cases delta <;> cases prior <;> cases bcd <;> cases invert <;> rfl

end Modifiers

/-- A value in memory. -/
structure MemoryAccess where
  encoding : Encoding
  address : UInt32
  modifiers : Modifiers := {}
  deriving DecidableEq, Repr, Inhabited

namespace MemoryAccess

/-- The value of the current frame, not a change and not an older value. -/
def isLive (access : MemoryAccess) : Bool :=
  !access.modifiers.delta && !access.modifiers.prior

/-- Do two accesses read the same address in the same encoding, whatever their modifiers? -/
def samePlace (left right : MemoryAccess) : Bool :=
  left.encoding == right.encoding && left.address == right.address

/-- The access as it is described to a user. -/
def describe (access : MemoryAccess) : List Char :=
  let words := [(access.modifiers.delta, " delta"), (access.modifiers.prior, " prior"),
    (access.modifiers.bcd, " bcd"), (access.modifiers.invert, " invert")]
  "Mem(".toList ++ access.encoding.name.toList ++ " @0x".toList ++
    Text.upperHexadecimal access.address.toNat ++
    words.flatMap (fun (present, word) => if present then word.toList else []) ++ [')']

end MemoryAccess

end Achievements
