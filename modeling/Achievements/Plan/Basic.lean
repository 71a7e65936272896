/-!
# Plans

A plan is a list of steps, one for each frame. A step writes bytes to memory, each through a mask
that says which bits are meant, and has a comment on its purpose.
-/

set_option autoImplicit false

namespace Achievements

/-- A write of some bits of a byte. -/
structure ByteWrite where
  address : UInt32
  value : UInt8
  mask : UInt8 := 255
  deriving DecidableEq, Repr, Inhabited

namespace ByteWrite

/-- The byte after the write: bits in the mask come from the value, all others stay. -/
def apply (write : ByteWrite) (old : UInt8) : UInt8 :=
  (old &&& ~~~write.mask) ||| (write.value &&& write.mask)

/-- Writes of whole bytes to consecutive addresses, which wrap around. -/
def consecutive (address : UInt32) : List UInt8 → List ByteWrite
  | [] => []
  | byte :: bytes => { address, value := byte } :: consecutive (address + 1) bytes

end ByteWrite

/-- What is written before one frame, and why. -/
structure Step where
  comment : String
  writes : List ByteWrite := []
  deriving DecidableEq, Repr, Inhabited

/-- Steps for consecutive frames. -/
structure Plan where
  steps : List Step
  deriving DecidableEq, Repr, Inhabited

namespace Plan

def length (plan : Plan) : Nat :=
  plan.steps.length

/-- The number of writes in all steps. -/
def writeCount (plan : Plan) : Nat :=
  (plan.steps.flatMap (·.writes)).length

end Plan

end Achievements
