import Achievements.Memory.Access
import Achievements.Memory.Ram
import Achievements.Number

/-!
# The last three frames of memory

Conditions may refer to the previous frame and to the one before it, so three generations of memory
are kept: `now`, `prev` and `prior`. `History.advance` moves every generation back by one frame and
takes a fresh copy; when no copy can be made the frame repeats its predecessor. `History.resync`
makes all three generations the current contents. `History.read` gives the value of a memory access.
-/

set_option autoImplicit false

namespace Achievements

/-- Three generations of memory contents. -/
structure History where
  now : Array UInt8
  prev : Array UInt8
  prior : Array UInt8
  deriving DecidableEq, Repr, Inhabited

namespace History

/-- Three generations of zeros. -/
def zeroed (size : Nat) : History :=
  let bytes := Array.replicate size 0
  ⟨bytes, bytes, bytes⟩

def size (history : History) : Nat :=
  history.now.size

/-- The bytes cut off at a size or extended to it with zeros. -/
def resizeBytes (size : Nat) (bytes : Array UInt8) : Array UInt8 :=
  if bytes.size = size then bytes
  else Array.ofFn fun index : Fin size => bytes.getD index 0

/-- Every generation cut off at a size or extended to it. -/
def resize (history : History) (size : Nat) : History :=
  ⟨resizeBytes size history.now, resizeBytes size history.prev, resizeBytes size history.prior⟩

/-- One frame passes. -/
def advance (history : History) (view : RamView) : History :=
  let old := history.resize view.size
  match view.copy with
  | .ok bytes => ⟨bytes, old.now, old.prev⟩
  | .error _ => ⟨old.now, old.now, old.prev⟩

/-- All generations become the current contents, unless these cannot be copied. -/
def resync (history : History) (view : RamView) : History :=
  match view.copy with
  | .ok bytes => ⟨bytes, bytes, bytes⟩
  | .error _ => history

/-- The history of memory first seen now; zeros if it cannot be copied. -/
def capture (view : RamView) : History :=
  (zeroed view.size).resync view

/-- The byte at a signed address, which wraps around at either end. -/
def byteAt (bytes : Array UInt8) (address : Int64) : UInt8 :=
  bytes.getD (address.toInt % bytes.size).toNat 0

/-- Consecutive bytes from a signed address on. -/
def bytesAt (bytes : Array UInt8) (address : Int64) (count : Nat) : List UInt8 :=
  (List.range count).map fun offset => byteAt bytes (address + Int64.ofNat offset)

/-- The generation that an access without a change refers to. -/
def generation (history : History) (access : MemoryAccess) : Array UInt8 :=
  if access.modifiers.prior then history.prior else history.now

/-- The integer at an address in one generation. -/
def integerIn (bytes : Array UInt8) (encoding : Encoding) (address : Int64) : Int64 :=
  Int64.ofNat (encoding.readInteger (bytesAt bytes address encoding.byteLength))

/-- The double at an address in one generation. -/
def realIn (bytes : Array UInt8) (encoding : Encoding) (address : Int64) : Float :=
  encoding.readReal (bytesAt bytes address encoding.byteLength)

/-- The low byte of a value as two decimal digits. -/
def decodeBcd (value : Int64) : Int64 :=
  ((value >>> 4) &&& 15) * 10 + (value &&& 15)

/-- Decimal digits first, then inversion. -/
def applyModifiers (modifiers : Modifiers) (value : Int64) : Int64 :=
  let value := if modifiers.bcd then decodeBcd value else value
  if modifiers.invert then ~~~value else value

/-- The value of an access whose address is moved by a bias. Floating-point values have no decimal
digits and are not inverted. -/
def read (history : History) (access : MemoryAccess) (bias : Int64) : Number :=
  let address := Int64.ofNat access.address.toNat + bias
  let encoding := access.encoding
  if encoding.isReal then
    if access.modifiers.delta then
      .real (realIn history.now encoding address - realIn history.prev encoding address)
    else .real (realIn (history.generation access) encoding address)
  else
    let raw :=
      if access.modifiers.delta then
        integerIn history.now encoding address - integerIn history.prev encoding address
      else integerIn (history.generation access) encoding address
    .int (applyModifiers access.modifiers raw)

end History

end Achievements
