/-!
# Console memory

`Ram` is a block of bytes whose addresses wrap around. `RamView` is what one frame can see of some
memory: either its bytes, or only its size and the reason why they cannot be copied.
-/

set_option autoImplicit false

namespace Achievements

/-- Why memory cannot be copied. -/
inductive RamError where
  | bufferTooSmall (needed actual : Nat)
  | unavailable (reason : String)
  deriving DecidableEq, Repr

def RamError.message : RamError → String
  | .bufferTooSmall needed actual =>
      s!"buffer holds {actual} bytes but the domain has {needed}"
  | .unavailable reason => s!"RAM domain unavailable: {reason}"

/-- A block of bytes. -/
structure Ram where
  bytes : Array UInt8
  deriving DecidableEq, Repr, Inhabited

namespace Ram

/-- Memory of a given size that holds zeros. -/
def zeroed (size : Nat) : Ram :=
  ⟨Array.replicate size 0⟩

/-- The system memory of the first console supported: two kibibytes. -/
def nesSize : Nat := 2048

def size (ram : Ram) : Nat :=
  ram.bytes.size

/-- The byte at an address modulo the size; zero in empty memory. -/
def peek (ram : Ram) (address : Nat) : UInt8 :=
  ram.bytes.getD (address % ram.size) 0

/-- Writes the byte at an address modulo the size; empty memory stays empty. -/
def poke (ram : Ram) (address : Nat) (value : UInt8) : Ram :=
  ⟨ram.bytes.setIfInBounds (address % ram.size) value⟩

/-- Writes one value everywhere. -/
def fill (ram : Ram) (value : UInt8) : Ram :=
  ⟨Array.replicate ram.size value⟩

/-- Pokes each address in turn. -/
def pokeAll (ram : Ram) (writes : List (Nat × UInt8)) : Ram :=
  writes.foldl (fun ram (address, value) => ram.poke address value) ram

/-- The buffer with the memory's bytes at its front; a buffer may be longer but not shorter. -/
def copyInto (ram : Ram) (buffer : Array UInt8) : Except RamError (Array UInt8) :=
  if buffer.size < ram.size then .error (.bufferTooSmall ram.size buffer.size)
  else .ok (ram.bytes ++ buffer.extract ram.size buffer.size)

@[simp] theorem size_zeroed (size : Nat) : (zeroed size).size = size := by
  simp [zeroed, Ram.size]

@[simp] theorem size_poke (ram : Ram) (address : Nat) (value : UInt8) :
    (ram.poke address value).size = ram.size := by
  simp [poke, Ram.size]

@[simp] theorem size_fill (ram : Ram) (value : UInt8) : (ram.fill value).size = ram.size := by
  simp [fill, Ram.size]

end Ram

/-- What can be seen of memory during one frame. -/
inductive RamView where
  | readable (ram : Ram)
  | unreadable (size : Nat) (error : RamError)
  deriving DecidableEq, Repr

namespace RamView

def size : RamView → Nat
  | .readable ram => ram.size
  | .unreadable size _ => size

/-- A copy of the bytes, or the reason why there is none. -/
def copy : RamView → Except RamError (Array UInt8)
  | .readable ram => .ok ram.bytes
  | .unreadable _ error => .error error

/-- The byte at an address modulo the size, through a full copy; zero where there is none. -/
def peek (view : RamView) (address : Nat) : UInt8 :=
  match view.copy with
  | .ok bytes => bytes.getD (address % view.size) 0
  | .error _ => 0

end RamView

end Achievements
