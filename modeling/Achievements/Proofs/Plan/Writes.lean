import Achievements.Plan.Execution
import Achievements.Plan.Solver
import Achievements.Proofs.Memory.Contents

/-!
# What writes leave in memory

A list of writes changes only the cells that it names, and the writes that a plan makes for an
operand name only cells of that operand. `Ram.read_integer_after_held` reads back what they wrote.
-/

set_option autoImplicit false

namespace Achievements

namespace ByteWrite

theorem test_bit_of_beyond (byte : UInt8) {bit : Nat} (beyond : 8 ≤ bit) :
    byte.toNat.testBit bit = false :=
  Nat.testBit_lt_two_pow
    (Nat.lt_of_lt_of_le byte.toNat_lt (Nat.pow_le_pow_right (by decide) beyond))

/-- A written bit is the value's bit where the mask has one, and the old bit elsewhere. -/
theorem test_bit_apply (write : ByteWrite) (old : UInt8) (bit : Nat) :
    (write.apply old).toNat.testBit bit =
      if write.mask.toNat.testBit bit then write.value.toNat.testBit bit
      else old.toNat.testBit bit := by
  have complement : (~~~write.mask).toNat.testBit bit =
      (decide (bit < 8) && !write.mask.toNat.testBit bit) := by
    have bits := BitVec.getLsbD_not (x := write.mask.toBitVec) (i := bit)
    rwa [← UInt8.toBitVec_not] at bits
  rw [apply, UInt8.toNat_or, UInt8.toNat_and, UInt8.toNat_and, Nat.testBit_or, Nat.testBit_and,
    Nat.testBit_and, complement]
  by_cases low : bit < 8
  · cases write.mask.toNat.testBit bit <;> simp [low]
  · have high := test_bit_of_beyond old (Nat.le_of_not_lt low)
    cases write.mask.toNat.testBit bit <;> simp [low, high]

/-- A write of a whole byte leaves the value. -/
theorem apply_whole {write : ByteWrite} (whole : write.mask = 255) (old : UInt8) :
    write.apply old = write.value := by
  rw [apply, whole, show ~~~(255 : UInt8) = 0 from rfl, UInt8.and_zero, UInt8.zero_or,
    show (255 : UInt8) = -1 from rfl, UInt8.and_neg_one]

/-- The low four bits of a byte are written through a mask that has exactly these. -/
theorem apply_low {write : ByteWrite} (mask : write.mask = 0x0F) (old : UInt8) :
    (write.apply old).toNat % 16 = write.value.toNat % 16 := by
  apply Nat.eq_of_testBit_eq
  intro bit
  rw [show (16 : Nat) = 2 ^ 4 from rfl, Nat.testBit_mod_two_pow, Nat.testBit_mod_two_pow,
    test_bit_apply, mask]
  by_cases low : bit < 4
  · have covered : ∀ bit < 4, (0x0F : UInt8).toNat.testBit bit = true := by decide
    rw [covered bit low, if_pos rfl]
  · simp [low]

/-- The high four bits likewise. -/
theorem apply_high {write : ByteWrite} (mask : write.mask = 0xF0) (old : UInt8) :
    (write.apply old).toNat / 16 = write.value.toNat / 16 := by
  apply Nat.eq_of_testBit_eq
  intro bit
  rw [show (16 : Nat) = 2 ^ 4 from rfl, ← Nat.shiftRight_eq_div_pow, ← Nat.shiftRight_eq_div_pow,
    Nat.testBit_shiftRight, Nat.testBit_shiftRight, test_bit_apply, mask]
  by_cases low : bit < 4
  · have covered : ∀ bit < 4, (0xF0 : UInt8).toNat.testBit (4 + bit) = true := by decide
    rw [covered bit low, if_pos rfl]
  · have beyond : 8 ≤ 4 + bit := by omega
    rw [test_bit_of_beyond _ beyond, test_bit_of_beyond _ beyond, if_neg Bool.false_ne_true,
      test_bit_of_beyond _ beyond]

/-- The cell that a write changes in memory of a given size. -/
def cell (size : Nat) (write : ByteWrite) : Nat :=
  write.address.toNat % size

end ByteWrite

namespace Ram

/-- Memory after a list of writes. -/
def write (ram : Ram) (writes : List ByteWrite) : Ram :=
  writes.foldl Step.applyWrite ram

@[simp] theorem write_nil (ram : Ram) : ram.write [] = ram := rfl

theorem write_cons (ram : Ram) (first : ByteWrite) (writes : List ByteWrite) :
    ram.write (first :: writes) = (Step.applyWrite ram first).write writes := rfl

theorem write_append (ram : Ram) (earlier later : List ByteWrite) :
    ram.write (earlier ++ later) = (ram.write earlier).write later :=
  List.foldl_append

@[simp] theorem size_apply_write (ram : Ram) (write : ByteWrite) :
    (Step.applyWrite ram write).size = ram.size :=
  ram.size_poke _ _

@[simp] theorem size_write (ram : Ram) (writes : List ByteWrite) :
    (ram.write writes).size = ram.size := by
  induction writes generalizing ram with
  | nil => rfl
  | cons first writes ih => rw [write_cons, ih, size_apply_write]

theorem peek_apply_write_same (ram : Ram) (write : ByteWrite) (nonempty : 0 < ram.size)
    {address : Nat} (same : write.cell ram.size = address % ram.size) :
    (Step.applyWrite ram write).peek address = write.apply (ram.peek address) := by
  have inside : address % ram.size < ram.bytes.size := Nat.mod_lt _ nonempty
  have size := ram.size_poke write.address.toNat (write.apply (ram.peek write.address.toNat))
  rw [ByteWrite.cell] at same
  rw [Step.applyWrite, peek, size, poke, same, peek, same]
  simp [Array.getD, inside, peek]

theorem peek_apply_write_other (ram : Ram) (write : ByteWrite) {address : Nat}
    (apart : write.cell ram.size ≠ address % ram.size) :
    (Step.applyWrite ram write).peek address = ram.peek address := by
  have size := ram.size_poke write.address.toNat (write.apply (ram.peek write.address.toNat))
  rw [ByteWrite.cell] at apart
  rw [Step.applyWrite, peek, size, poke]
  simp only [Array.getD_eq_getD_getElem?, Array.getElem?_setIfInBounds_ne apart]
  rw [peek, Array.getD_eq_getD_getElem?]

/-- Writes leave a cell alone that none of them names. -/
theorem peek_write_of_apart (ram : Ram) (writes : List ByteWrite) (address : Nat)
    (apart : ∀ write ∈ writes, write.cell ram.size ≠ address % ram.size) :
    (ram.write writes).peek address = ram.peek address := by
  induction writes generalizing ram with
  | nil => rfl
  | cons first writes ih =>
      have rest := ih (Step.applyWrite ram first) fun write member => by
        rw [size_apply_write]
        exact apart write (List.mem_cons_of_mem _ member)
      rw [write_cons, rest, ram.peek_apply_write_other first (apart first List.mem_cons_self)]

/-- Writes that name no cell of an operand leave its bytes alone. -/
theorem contents_write_of_apart (ram : Ram) (writes : List ByteWrite) (access : MemoryAccess)
    (apart : ∀ write ∈ writes, write.cell ram.size ∉ access.cells ram.size) :
    (ram.write writes).contents access = ram.contents access := by
  apply contents_congr (ram.size_write writes)
  rw [size_write]
  intro cell member
  apply peek_write_of_apart
  intro write inWrites same
  obtain ⟨offset, _, place⟩ := List.mem_map.mp member
  apply apart write inWrites
  rw [same, ← place, Nat.mod_mod, place]
  exact member

theorem succ_mod_ne (address offset size : Nat) (below : offset + 1 < size) :
    (address + (offset + 1)) % size ≠ address % size := by
  intro same
  have difference := Nat.sub_mod_eq_zero_of_mod_eq same
  rw [Nat.add_sub_cancel_left, Nat.mod_eq_of_lt below] at difference
  cases difference

theorem toNat_succ_address {address : UInt32} {count : Nat}
    (within : address.toNat + (count + 2) ≤ 4294967296) :
    (address + 1).toNat = address.toNat + 1 := by
  rw [UInt32.toNat_add, UInt32.toNat_one]
  omega

/-- Consecutive writes name the cells from an address on, each as a whole. -/
theorem of_mem_consecutive {address : UInt32} {bytes : List UInt8} {write : ByteWrite}
    (within : address.toNat + bytes.length ≤ 4294967296)
    (member : write ∈ ByteWrite.consecutive address bytes) :
    ∃ offset, ∃ below : offset < bytes.length, write.address.toNat = address.toNat + offset ∧
      write.value = bytes[offset] ∧ write.mask = 255 := by
  induction bytes generalizing address with
  | nil => cases member
  | cons byte bytes ih =>
      rcases List.mem_cons.mp member with rfl | later
      · exact ⟨0, Nat.zero_lt_succ _, rfl, rfl, rfl⟩
      · cases bytes with
        | nil => cases later
        | cons next bytes =>
            have following := toNat_succ_address within
            obtain ⟨offset, below, place, value, whole⟩ := ih
              (by simp only [List.length_cons] at within ⊢; omega) later
            exact ⟨offset + 1, Nat.succ_lt_succ below, by rw [place, following]; omega, value, whole⟩

/-- Consecutive whole bytes are read back as they were written. -/
theorem peek_write_consecutive (ram : Ram) (address : UInt32) (bytes : List UInt8)
    (withinSize : bytes.length ≤ ram.size)
    (withinAddresses : address.toNat + bytes.length ≤ 4294967296) (offset : Nat)
    (below : offset < bytes.length) :
    (ram.write (ByteWrite.consecutive address bytes)).peek (address.toNat + offset) =
      bytes[offset] := by
  induction bytes generalizing ram address offset with
  | nil => cases below
  | cons byte bytes ih =>
      simp only [List.length_cons] at withinSize withinAddresses below
      rw [ByteWrite.consecutive, write_cons]
      cases offset with
      | zero =>
          have untouched := (Step.applyWrite ram ⟨address, byte, 255⟩).peek_write_of_apart
            (ByteWrite.consecutive (address + 1) bytes) address.toNat (by
              intro write member
              cases bytes with
              | nil => cases member
              | cons next bytes =>
                  have following := toNat_succ_address withinAddresses
                  obtain ⟨offset, inBytes, place, -⟩ := of_mem_consecutive
                    (by rw [following]; simp only [List.length_cons] at *; omega) member
                  rw [size_apply_write, ByteWrite.cell, place, following, Nat.add_assoc,
                    Nat.add_comm 1 offset]
                  exact succ_mod_ne address.toNat offset ram.size (by
                    simp only [List.length_cons] at *
                    omega))
          rw [Nat.add_zero, untouched, ram.peek_apply_write_same _ (by omega) rfl]
          exact ByteWrite.apply_whole rfl _
      | succ offset =>
          cases bytes with
          | nil => exact absurd below (by simp)
          | cons next bytes =>
              have following := toNat_succ_address withinAddresses
              have later := ih (Step.applyWrite ram ⟨address, byte, 255⟩) (address + 1)
                (by rw [size_apply_write]; omega)
                (by rw [following]; omega) offset (by omega)
              rw [following, Nat.add_assoc, Nat.add_comm 1 offset] at later
              exact later

theorem contents_write_consecutive (ram : Ram) (access : MemoryAccess) (bytes : List UInt8)
    (fits : access.Fits ram.size) (length : bytes.length = access.encoding.byteLength) :
    (ram.write (ByteWrite.consecutive access.address bytes)).contents access = bytes := by
  apply List.ext_getElem
  · rw [length_contents, length]
  · intro offset _ below
    simp only [contents, List.getElem_map, List.getElem_range]
    exact ram.peek_write_consecutive access.address bytes (length ▸ fits.withinSize)
      (length ▸ fits.withinAddresses) offset below

theorem poke_peek (ram : Ram) (address : Nat) : ram.poke address (ram.peek address) = ram := by
  rw [poke, peek, size]
  congr 1
  apply Array.ext_getElem?
  intro cell
  rw [Array.getElem?_setIfInBounds]
  split
  · rename_i same
    subst same
    by_cases inside : address % ram.bytes.size < ram.bytes.size <;> simp [Array.getD, inside]
  · rfl

theorem write_of_present {ram : Ram} {writes : List ByteWrite} (present : ∀ write ∈ writes,
    write.apply (ram.peek write.address.toNat) = ram.peek write.address.toNat) :
    ram.write writes = ram := by
  induction writes with
  | nil => rfl
  | cons first writes ih =>
      have unchanged : Step.applyWrite ram first = ram := by
        rw [Step.applyWrite, present first List.mem_cons_self, poke_peek]
      rw [write_cons, unchanged,
        ih fun write member => present write (List.mem_cons_of_mem _ member)]

/-- Writing what an operand holds already changes nothing. -/
theorem write_contents (ram : Ram) (access : MemoryAccess)
    (within : access.address.toNat + access.encoding.byteLength ≤ 4294967296) :
    ram.write (ByteWrite.consecutive access.address (ram.contents access)) = ram := by
  rw [← ram.length_contents access] at within
  apply write_of_present
  intro write member
  obtain ⟨offset, below, place, value, whole⟩ := of_mem_consecutive within member
  rw [ByteWrite.apply_whole whole, value, place]
  simp only [contents, List.getElem_map, List.getElem_range]

theorem contents_of_one_byte (ram : Ram) {access : MemoryAccess}
    (single : access.encoding.byteLength = 1) :
    ram.contents access = [ram.peek access.address.toNat] := by
  rw [contents, single]
  rfl

end Ram

namespace Encoding

theorem digits_little_succ (count value : Nat) :
    digits .littleEndian (count + 1) value =
      UInt8.ofNat value :: digits .littleEndian count (value / 256) := by
  simp only [digits, List.range_succ_eq_map, List.map_cons, List.map_map, Nat.pow_eq, Nat.pow_zero,
    Nat.div_one]
  congr 1
  apply List.map_congr_left
  intro place _
  rw [Function.comp_apply, Nat.pow_succ', Nat.div_div_eq_div_mul]

theorem assemble_digits_little (count value : Nat) (small : value < Nat.pow 256 count) :
    assemble .littleEndian (digits .littleEndian count value) = value := by
  induction count generalizing value with
  | zero =>
      have zero : value = 0 := Nat.lt_one_iff.mp small
      rw [zero]
      rfl
  | succ count ih =>
      have rest := ih (value / 256) (by
        rw [Nat.pow_eq, Nat.pow_succ] at small
        exact Nat.div_lt_of_lt_mul (by rwa [Nat.pow_eq, Nat.mul_comm]))
      simp only [assemble] at rest ⊢
      rw [digits_little_succ, List.foldr_cons, rest, UInt8.toNat_ofNat']
      omega

/-- The digits of a number read as that number, in either order. -/
theorem assemble_digits (order : ByteOrder) (count value : Nat)
    (small : value < Nat.pow 256 count) : assemble order (digits order count value) = value := by
  cases order with
  | littleEndian => exact assemble_digits_little count value small
  | bigEndian =>
      rw [assemble_big_eq]
      simp only [digits, List.reverse_reverse]
      exact assemble_digits_little count value small

theorem length_digits (order : ByteOrder) (count value : Nat) :
    (digits order count value).length = count := by
  cases order <;> simp [digits]

theorem digits_assemble_little (bytes : List UInt8) :
    digits .littleEndian bytes.length (assemble .littleEndian bytes) = bytes := by
  induction bytes with
  | nil => rfl
  | cons byte rest ih =>
      have small := byte.toNat_lt
      have value : assemble .littleEndian (byte :: rest) =
          byte.toNat + 256 * assemble .littleEndian rest := rfl
      have low : UInt8.ofNat (byte.toNat + 256 * assemble .littleEndian rest) = byte := by
        rw [← UInt8.toNat_inj, UInt8.toNat_ofNat']
        omega
      have high : (byte.toNat + 256 * assemble .littleEndian rest) / 256 =
          assemble .littleEndian rest := by omega
      rw [List.length_cons, digits_little_succ, value, low, high, ih]

/-- The bytes of a number are its digits, in either order. -/
theorem digits_assemble (order : ByteOrder) (bytes : List UInt8) :
    digits order bytes.length (assemble order bytes) = bytes := by
  cases order with
  | littleEndian => exact digits_assemble_little bytes
  | bigEndian =>
      have reversed := digits_assemble_little bytes.reverse
      rw [List.length_reverse, ← assemble_big_eq] at reversed
      exact (congrArg List.reverse reversed).trans bytes.reverse_reverse

end Encoding

namespace Solver

/-- The writes for an operand name only its own cells. -/
theorem cell_of_writes_of_held {access : MemoryAccess} {held : Nat} {write : ByteWrite}
    (size : Nat) (integer : access.encoding.isReal = false)
    (within : access.address.toNat + access.encoding.byteLength ≤ 4294967296)
    (member : write ∈ writesOfHeld access held) : write.cell size ∈ access.cells size := by
  have consecutive : ∀ bytes : List UInt8, bytes.length = access.encoding.byteLength →
      write ∈ ByteWrite.consecutive access.address bytes → write.cell size ∈ access.cells size := by
    intro bytes length inBytes
    obtain ⟨offset, below, place, -⟩ := Ram.of_mem_consecutive (length ▸ within) inBytes
    refine List.mem_map.mpr ⟨offset, List.mem_range.mpr (length ▸ below), ?_⟩
    rw [ByteWrite.cell, place]
  have single : write.address = access.address → write.cell size ∈ access.cells size := by
    intro address
    refine List.mem_map.mpr ⟨0, List.mem_range.mpr access.encoding.byte_length_pos, ?_⟩
    rw [ByteWrite.cell, address, Nat.add_zero]
  obtain ⟨encoding, address, modifiers⟩ := access
  cases encoding with
  | bit | lowNibble | highNibble | byte | bitCount =>
      simp only [writesOfHeld, List.mem_singleton] at member
      exact single (by rw [member])
  | word16 | word24 | word32 | untagged =>
      exact consecutive _ (Encoding.length_digits _ _ _) member
  | real => cases integer

end Solver

namespace Ram

/-- An operand that was made to hold a number holds it. -/
theorem read_integer_after_held (ram : Ram) (access : MemoryAccess) (held : Nat)
    (integer : access.encoding.isReal = false) (fits : access.Fits ram.size)
    (small : held ≤ access.encoding.maximum) :
    access.encoding.readInteger
      ((ram.write (Solver.writesOfHeld access held)).contents access) = held := by
  have nonempty : 0 < ram.size := Nat.lt_of_lt_of_le access.encoding.byte_length_pos fits.withinSize
  have single : ∀ write : ByteWrite, access.encoding.byteLength = 1 →
      Solver.writesOfHeld access held = [write] → write.address = access.address →
      (ram.write (Solver.writesOfHeld access held)).contents access =
        [write.apply (ram.peek access.address.toNat)] := by
    intro write byte writes address
    rw [contents_of_one_byte _ byte, writes, write_cons, write_nil,
      ram.peek_apply_write_same write nonempty (by rw [ByteWrite.cell, address])]
  have several : ∀ order, Solver.writesOfHeld access held = ByteWrite.consecutive access.address
        (Encoding.digits order access.encoding.byteLength held) →
      (ram.write (Solver.writesOfHeld access held)).contents access =
        Encoding.digits order access.encoding.byteLength held := by
    intro order writes
    rw [writes, contents_write_consecutive _ _ _ fits (Encoding.length_digits _ _ _)]
  obtain ⟨encoding, address, modifiers⟩ := access
  cases encoding with
  | bit index =>
      rw [single _ rfl rfl rfl]
      simp only [Encoding.readInteger, List.headD_cons, Nat.pow_eq]
      rw [← Nat.toNat_testBit, ByteWrite.test_bit_apply]
      have mask : ∀ index : Fin 8,
          (UInt8.ofNat (2 ^ index.val)).toNat.testBit index.val = true := by decide
      have value : ∀ index : Fin 8, ∀ held ≤ 1,
          ((UInt8.ofNat (held % 2 * 2 ^ index.val)).toNat.testBit index.val).toNat = held := by
        decide
      rw [if_pos (mask index)]
      exact value index held small
  | lowNibble =>
      rw [single _ rfl rfl rfl]
      simp only [Encoding.readInteger, List.headD_cons]
      rw [ByteWrite.apply_low rfl, UInt8.toNat_ofNat']
      simp only [Encoding.maximum] at small
      omega
  | highNibble =>
      rw [single _ rfl rfl rfl]
      simp only [Encoding.readInteger, List.headD_cons]
      rw [ByteWrite.apply_high rfl, UInt8.toNat_ofNat']
      simp only [Encoding.maximum] at small
      omega
  | byte =>
      rw [single _ rfl rfl rfl]
      simp only [Encoding.readInteger, List.headD_cons]
      rw [ByteWrite.apply_whole rfl, UInt8.toNat_ofNat']
      exact Nat.mod_eq_of_lt (Nat.lt_succ_of_le small)
  | bitCount =>
      rw [single _ rfl rfl rfl]
      simp only [Encoding.readInteger, List.headD_cons]
      rw [ByteWrite.apply_whole rfl]
      have counted : ∀ held ≤ 8,
          Encoding.countBits (UInt8.ofNat (Nat.pow 2 (min held 8) - 1)) = held := by decide
      exact counted held small
  | word16 order | word24 order | word32 order =>
      rw [several order rfl]
      exact Encoding.assemble_digits order _ held (Nat.lt_succ_of_le small)
  | untagged =>
      rw [several .littleEndian rfl]
      exact Encoding.assemble_digits .littleEndian _ held (Nat.lt_succ_of_le small)
  | real => cases integer

end Ram

end Achievements
