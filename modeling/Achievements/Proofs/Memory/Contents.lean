import Achievements.Memory.History

/-!
# What a memory operand holds

An operand covers as many cells of memory as its encoding takes, and its present value is a function
of the bytes there. `History.read_live` says so of the evaluation of operands; all that is proved
about plans goes through the bytes.
-/

set_option autoImplicit false

namespace Achievements

namespace MemoryAccess

/-- The cells that an operand covers in memory of a given size. -/
def cells (size : Nat) (access : MemoryAccess) : List Nat :=
  (List.range access.encoding.byteLength).map fun offset =>
    (access.address.toNat + offset) % size

/-- An operand that covers different cells, none of them beyond the last address. -/
structure Fits (size : Nat) (access : MemoryAccess) : Prop where
  withinSize : access.encoding.byteLength ≤ size
  withinAddresses : access.address.toNat + access.encoding.byteLength ≤ 4294967296

instance (size : Nat) (access : MemoryAccess) : Decidable (access.Fits size) :=
  decidable_of_iff (access.encoding.byteLength ≤ size ∧
    access.address.toNat + access.encoding.byteLength ≤ 4294967296)
    ⟨fun both => ⟨both.1, both.2⟩, fun fits => ⟨fits.withinSize, fits.withinAddresses⟩⟩

/-- The present value of an operand that holds some bytes. -/
def valueOf (access : MemoryAccess) (bytes : List UInt8) : Number :=
  if access.encoding.isReal then .real (access.encoding.readReal bytes)
  else .int (History.applyModifiers access.modifiers
    (Int64.ofNat (access.encoding.readInteger bytes)))

end MemoryAccess

namespace Encoding

theorem byte_length_pos (encoding : Encoding) : 0 < encoding.byteLength := by
  cases encoding <;> simp [byteLength]

theorem byte_length_le (encoding : Encoding) : encoding.byteLength ≤ 4 := by
  cases encoding <;> simp [byteLength]

theorem assemble_little_lt (bytes : List UInt8) :
    assemble .littleEndian bytes < Nat.pow 256 bytes.length := by
  induction bytes with
  | nil => decide
  | cons byte rest ih =>
      have digit := byte.toNat_lt
      simp only [assemble, List.foldr_cons, List.length_cons, Nat.pow_eq, Nat.pow_succ] at ih ⊢
      omega

theorem assemble_big_eq (bytes : List UInt8) :
    assemble .bigEndian bytes = assemble .littleEndian bytes.reverse := by
  unfold assemble
  simp only [List.foldr_reverse]
  congr 1
  funext value byte
  exact Nat.add_comm _ _

theorem assemble_lt (order : ByteOrder) (bytes : List UInt8) :
    assemble order bytes < Nat.pow 256 bytes.length := by
  cases order with
  | littleEndian => exact assemble_little_lt bytes
  | bigEndian =>
      rw [assemble_big_eq, ← List.length_reverse]
      exact assemble_little_lt bytes.reverse

theorem count_bits_le (byte : UInt8) : countBits byte ≤ 8 :=
  List.length_filter_le _ _

/-- No bytes read as more than the maximum of their encoding. -/
theorem read_integer_le (encoding : Encoding) (integer : encoding.isReal = false)
    (bytes : List UInt8) (length : bytes.length = encoding.byteLength) :
    encoding.readInteger bytes ≤ encoding.maximum := by
  have first := (bytes.headD 0).toNat_lt
  have words : ∀ order, assemble order bytes ≤ Nat.pow 256 encoding.byteLength - 1 := fun order =>
    Nat.le_sub_one_of_lt (length ▸ assemble_lt order bytes)
  cases encoding with
  | bit index => exact Nat.le_of_lt_succ (Nat.mod_lt _ (by decide))
  | lowNibble => exact Nat.le_of_lt_succ (Nat.mod_lt _ (by decide))
  | highNibble =>
      simp only [readInteger, maximum]
      omega
  | byte => exact Nat.le_of_lt_succ first
  | bitCount => exact count_bits_le _
  | word16 order => exact words order
  | word24 order => exact words order
  | word32 order => exact words order
  | untagged => exact words .littleEndian
  | real format order => cases integer

end Encoding

namespace MemoryAccess

theorem maximum_lt (access : MemoryAccess) : access.encoding.maximum < 4294967296 := by
  cases access.encoding with
  | bit | lowNibble | highNibble | bitCount => simp [Encoding.maximum]
  | byte | word16 | word24 | word32 | real | untagged =>
      simp only [Encoding.maximum, Encoding.byteLength]
      decide

theorem read_integer_lt (access : MemoryAccess) (integer : access.encoding.isReal = false)
    {bytes : List UInt8} (length : bytes.length = access.encoding.byteLength) :
    access.encoding.readInteger bytes < 4294967296 :=
  Nat.lt_of_le_of_lt (access.encoding.read_integer_le integer bytes length) access.maximum_lt

end MemoryAccess

namespace Ram

/-- The bytes that an operand covers. -/
def contents (ram : Ram) (access : MemoryAccess) : List UInt8 :=
  (List.range access.encoding.byteLength).map fun offset =>
    ram.peek (access.address.toNat + offset)

theorem length_contents (ram : Ram) (access : MemoryAccess) :
    (ram.contents access).length = access.encoding.byteLength := by
  rw [contents, List.length_map, List.length_range]

/-- Memory that agrees on the cells of an operand gives it the same bytes. -/
theorem contents_congr {ram other : Ram} {access : MemoryAccess} (size : ram.size = other.size)
    (agree : ∀ cell ∈ access.cells ram.size, ram.peek cell = other.peek cell) :
    ram.contents access = other.contents access := by
  apply List.map_congr_left
  intro offset member
  have inCells : (access.address.toNat + offset) % ram.size ∈ access.cells ram.size :=
    List.mem_map.mpr ⟨offset, member, rfl⟩
  have same := agree _ inCells
  simp only [peek, Nat.mod_mod, size] at same ⊢
  exact same

end Ram

namespace History

/-- Up to its fourth byte no address of an operand wraps whose addresses are signed integers. -/
theorem to_int_place (address : UInt32) (bias : Int64) {offset : Nat} (short : offset ≤ 3)
    (within : address.toNat + bias.toInt + 3 ≤ Int64.maxValue.toInt) :
    (Int64.ofNat address.toNat + bias + Int64.ofNat offset).toInt =
      address.toNat + bias.toInt + offset := by
  have bound := address.toNat_lt
  have lower := bias.le_toInt
  rw [Int64.toInt_maxValue] at within
  have first : (Int64.ofNat address.toNat + bias).toInt = address.toNat + bias.toInt := by
    rw [Int64.toInt_add, Int64.toInt_ofNat_of_lt (by omega)]
    exact Int.bmod_eq_of_le (by omega) (by omega)
  rw [Int64.toInt_add, first, Int64.toInt_ofNat_of_lt (by omega)]
  exact Int.bmod_eq_of_le (by omega) (by omega)

theorem bytes_at_address (ram : Ram) (address : UInt32) (count : Nat) (short : count ≤ 4) :
    bytesAt ram.bytes (Int64.ofNat address.toNat) count =
      (List.range count).map fun offset => ram.peek (address.toNat + offset) := by
  apply List.map_congr_left
  intro offset member
  have below := List.mem_range.mp member
  have short : offset ≤ 3 := by omega
  have bound := address.toNat_lt
  have place := to_int_place address 0 short (by
    rw [Int64.toInt_maxValue, Int64.toInt_zero]
    omega)
  rw [Int64.add_zero, Int64.toInt_zero, Int.add_zero, ← Int.natCast_add] at place
  rw [byteAt, place, ← Int.natCast_emod, Int.toNat_natCast]
  rfl

/-- A live operand reads as the value of the bytes that it covers. -/
theorem read_live {history : History} {ram : Ram} {access : MemoryAccess}
    (live : access.isLive = true) (now : history.now = ram.bytes) :
    history.read access 0 = access.valueOf (ram.contents access) := by
  simp only [MemoryAccess.isLive, Bool.and_eq_true, Bool.not_eq_true'] at live
  obtain ⟨unchanged, current⟩ := live
  have bytes := bytes_at_address ram access.address access.encoding.byteLength
    access.encoding.byte_length_le
  simp only [read, generation, integerIn, realIn, unchanged, current, Bool.false_eq_true, if_false,
    Int64.add_zero, now, bytes]
  rfl

/-- The integer that an operand holds in some generation. -/
theorem integer_in_ram (ram : Ram) (access : MemoryAccess) :
    integerIn ram.bytes access.encoding (Int64.ofNat access.address.toNat) =
      Int64.ofNat (access.encoding.readInteger (ram.contents access)) := by
  rw [integerIn, bytes_at_address ram access.address access.encoding.byteLength
    access.encoding.byte_length_le]
  rfl

/-- An integer without decimal digits or inversion reads as it stands in its generation. -/
theorem read_unchanged {history : History} {access : MemoryAccess} {past : Modifiers} {bias : Int64}
    (integer : access.encoding.isReal = false) (delta : past.delta = false)
    (bcd : past.bcd = false) (invert : past.invert = false) :
    history.read { access with modifiers := past } bias =
      .int (integerIn (history.generation { access with modifiers := past }) access.encoding
        (Int64.ofNat access.address.toNat + bias)) := by
  simp only [read, integer, delta, applyModifiers, bcd, invert, Bool.false_eq_true, if_false]

/-- Its change reads as the present integer less the one of the frame before. -/
theorem read_difference {history : History} {access : MemoryAccess} {past : Modifiers}
    {bias : Int64} (integer : access.encoding.isReal = false) (delta : past.delta = true)
    (bcd : past.bcd = false) (invert : past.invert = false) :
    history.read { access with modifiers := past } bias =
      .int (integerIn history.now access.encoding (Int64.ofNat access.address.toNat + bias) -
        integerIn history.prev access.encoding (Int64.ofNat access.address.toNat + bias)) := by
  simp only [read, integer, delta, applyModifiers, bcd, invert, Bool.false_eq_true, if_false,
    if_true]

/-- The difference of two integers that are not negative does not wrap. -/
theorem to_int_difference {value before : Int64} (nonnegative : 0 ≤ value.toInt)
    (nonnegativeBefore : 0 ≤ before.toInt) :
    (value - before).toInt = value.toInt - before.toInt := by
  have upper := value.toInt_lt
  have upperBefore := before.toInt_lt
  rw [Int64.toInt_sub]
  exact Int.bmod_eq_of_le (by omega) (by omega)

/-- A change reads as the difference of what memory held now and on the frame before. -/
theorem read_change {history : History} {ram old : Ram} {access : MemoryAccess} {past : Modifiers}
    (integer : access.encoding.isReal = false) (delta : past.delta = true) (bcd : past.bcd = false)
    (invert : past.invert = false) (now : history.now = ram.bytes)
    (prev : history.prev = old.bytes) :
    history.read { access with modifiers := past } 0 =
      .int (Int64.ofNat (access.encoding.readInteger (ram.contents access)) -
        Int64.ofNat (access.encoding.readInteger (old.contents access))) := by
  rw [read_difference integer delta bcd invert, Int64.add_zero, now, prev, integer_in_ram,
    integer_in_ram]

/-- A value two frames old reads as the integer held then. -/
theorem read_prior {history : History} {old : Ram} {access : MemoryAccess}
    (integer : access.encoding.isReal = false) (prior : history.prior = old.bytes) :
    history.read { access with modifiers := { prior := true } } 0 =
      .int (Int64.ofNat (access.encoding.readInteger (old.contents access))) := by
  have aged : history.generation { access with modifiers := { prior := true } } = old.bytes := prior
  rw [read_unchanged integer rfl rfl rfl, Int64.add_zero, aged, integer_in_ram]

end History

end Achievements
