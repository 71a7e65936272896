import Achievements.Memory.RealFormat

/-!
# Encodings of values in memory

An encoding says how many bytes a value takes and how those bytes are read: as a single bit, half a
byte, a byte, an unsigned integer of two to four bytes in either order, a count of set bits, or one
of three floating-point formats. Each encoding has a one-letter tag in formula text and a name in
documents.
-/

set_option autoImplicit false

namespace Achievements

/-- The order of the bytes of a number in memory. -/
inductive ByteOrder where
  | littleEndian
  | bigEndian
  deriving DecidableEq, Repr, Inhabited

/-- How the bytes at an address are read. -/
inductive Encoding where
  | bit (index : Fin 8)
  | lowNibble
  | highNibble
  | byte
  | bitCount
  | word16 (order : ByteOrder)
  | word24 (order : ByteOrder)
  | word32 (order : ByteOrder)
  | real (format : RealFormat) (order : ByteOrder)
  /-- No recognised tag: read as a 16-bit little-endian integer. -/
  | untagged
  deriving DecidableEq, Repr, Inhabited

namespace Encoding

/-- Every encoding, once. -/
def all : List Encoding :=
  [.bit 0, .bit 1, .bit 2, .bit 3, .bit 4, .bit 5, .bit 6, .bit 7, .lowNibble, .highNibble, .byte,
    .word16 .littleEndian, .word24 .littleEndian, .word32 .littleEndian,
    .word16 .bigEndian, .word24 .bigEndian, .word32 .bigEndian, .bitCount,
    .real .single .littleEndian, .real .single .bigEndian,
    .real .doubleTop .littleEndian, .real .doubleTop .bigEndian,
    .real .microsoft .bigEndian, .real .microsoft .littleEndian, .untagged]

/-- The name in documents and descriptions. -/
def name : Encoding → String
  | .bit index => s!"Bit{index.val}"
  | .lowNibble => "LowerNibble"
  | .highNibble => "UpperNibble"
  | .byte => "U8"
  | .bitCount => "BitCount"
  | .word16 .littleEndian => "U16LE"
  | .word16 .bigEndian => "U16BE"
  | .word24 .littleEndian => "U24LE"
  | .word24 .bigEndian => "U24BE"
  | .word32 .littleEndian => "U32LE"
  | .word32 .bigEndian => "U32BE"
  | .real .single .littleEndian => "F32LE"
  | .real .single .bigEndian => "F32BE"
  | .real .doubleTop .littleEndian => "Double32LE"
  | .real .doubleTop .bigEndian => "Double32BE"
  | .real .microsoft .bigEndian => "MBF32Native"
  | .real .microsoft .littleEndian => "MBF32LE"
  | .untagged => "None"

/-- The encoding of a name. -/
def ofName? (text : String) : Option Encoding :=
  all.find? fun encoding => encoding.name == text

/-- The encoding tagged by a letter after `0x`, in either case. -/
def ofIntegerTag? (letter : Char) : Option Encoding :=
  match letter.toUpper with
  | 'H' => some .byte
  | 'L' => some .lowNibble
  | 'U' => some .highNibble
  | 'W' => some (.word24 .littleEndian)
  | 'X' => some (.word32 .littleEndian)
  | 'I' => some (.word16 .bigEndian)
  | 'J' => some (.word24 .bigEndian)
  | 'G' => some (.word32 .bigEndian)
  | 'K' => some .bitCount
  | 'M' => some (.bit 0)
  | 'N' => some (.bit 1)
  | 'O' => some (.bit 2)
  | 'P' => some (.bit 3)
  | 'Q' => some (.bit 4)
  | 'R' => some (.bit 5)
  | 'S' => some (.bit 6)
  | 'T' => some (.bit 7)
  | _ => none

/-- The encoding tagged by a letter after `f`, in either case. -/
def ofRealTag? (letter : Char) : Option Encoding :=
  match letter.toUpper with
  | 'F' => some (.real .single .littleEndian)
  | 'B' => some (.real .single .bigEndian)
  | 'H' => some (.real .doubleTop .littleEndian)
  | 'I' => some (.real .doubleTop .bigEndian)
  | 'M' => some (.real .microsoft .bigEndian)
  | 'L' => some (.real .microsoft .littleEndian)
  | _ => none

/-- The text before the address in a formula. A blank keeps an untagged address apart from a
hexadecimal constant. -/
def tag : Encoding → String
  | .bit 0 => "0xM"
  | .bit 1 => "0xN"
  | .bit 2 => "0xO"
  | .bit 3 => "0xP"
  | .bit 4 => "0xQ"
  | .bit 5 => "0xR"
  | .bit 6 => "0xS"
  | .bit 7 => "0xT"
  | .lowNibble => "0xL"
  | .highNibble => "0xU"
  | .byte => "0xH"
  | .word24 .littleEndian => "0xW"
  | .word32 .littleEndian => "0xX"
  | .word16 .bigEndian => "0xI"
  | .word24 .bigEndian => "0xJ"
  | .word32 .bigEndian => "0xG"
  | .bitCount => "0xK"
  | .real .single .littleEndian => "fF"
  | .real .single .bigEndian => "fB"
  | .real .doubleTop .littleEndian => "fH"
  | .real .doubleTop .bigEndian => "fI"
  | .real .microsoft .bigEndian => "fM"
  | .real .microsoft .littleEndian => "fL"
  | .word16 .littleEndian | .untagged => "0x "

def isReal : Encoding → Bool
  | .real .. => true
  | _ => false

/-- The index of a single-bit encoding. -/
def bitIndex? : Encoding → Option (Fin 8)
  | .bit index => some index
  | _ => none

/-- Integers whose most significant byte comes first. -/
def isBigEndianInteger : Encoding → Bool
  | .word16 .bigEndian | .word24 .bigEndian | .word32 .bigEndian => true
  | _ => false

/-- The number of bytes a value takes. -/
def byteLength : Encoding → Nat
  | .bit _ | .lowNibble | .highNibble | .byte | .bitCount => 1
  | .word16 _ | .untagged => 2
  | .word24 _ => 3
  | .word32 _ | .real .. => 4

/-- The largest integer that can be read. -/
def maximum : Encoding → Nat
  | .bit _ => 1
  | .lowNibble | .highNibble => 15
  | .bitCount => 8
  | encoding => Nat.pow 2 (8 * encoding.byteLength) - 1

/-- The integer whose digits in base 256 are the bytes, in the given order. -/
def assemble : ByteOrder → List UInt8 → Nat
  | .littleEndian, bytes => bytes.foldr (fun byte value => byte.toNat + 256 * value) 0
  | .bigEndian, bytes => bytes.foldl (fun value byte => 256 * value + byte.toNat) 0

/-- The last `count` digits of a number in base 256, in the given order. -/
def digits (order : ByteOrder) (count value : Nat) : List UInt8 :=
  let little := (List.range count).map fun place => UInt8.ofNat (value / Nat.pow 256 place)
  match order with
  | .littleEndian => little
  | .bigEndian => little.reverse

/-- The number of bits that are set. -/
def countBits (byte : UInt8) : Nat :=
  ((List.range 8).filter fun index => byte.toNat.testBit index).length

/-- The integer that the bytes at an address encode. A floating-point encoding has none; its
pattern is given, least significant byte first. -/
def readInteger (encoding : Encoding) (bytes : List UInt8) : Nat :=
  let first := bytes.headD 0
  match encoding with
  | .bit index => first.toNat / Nat.pow 2 index.val % 2
  | .lowNibble => first.toNat % 16
  | .highNibble => first.toNat / 16
  | .byte => first.toNat
  | .bitCount => countBits first
  | .word16 order | .word24 order | .word32 order => assemble order bytes
  | .real .. | .untagged => assemble .littleEndian bytes

/-- The double that the bytes at an address encode; zero for an integer encoding. -/
def readReal (encoding : Encoding) (bytes : List UInt8) : Float :=
  match encoding with
  | .real format order => format.decode (assemble order bytes)
  | _ => 0

/-- The bytes that make a floating-point encoding read as a double; none for an integer
encoding. -/
def realBytes (encoding : Encoding) (value : Float) : List UInt8 :=
  match encoding with
  | .real format order => digits order 4 (format.encode value)
  | _ => []

/-- Does encoding a double come to an end on a platform? -/
def isEncoded (platform : Platform) (encoding : Encoding) (value : Float) : Bool :=
  match encoding with
  | .real format _ => (format.encode? platform value).isSome
  | _ => true

end Encoding

end Achievements
