import Achievements.Proofs.Engine.Operations
import Achievements.Proofs.Memory.Contents
import Mathlib.Algebra.BigOperators.Ring.Finset

/-!
# Where integers are found

An integer operand starts at its address, moved by a bias that may lead before the first cell of
memory or behind the last, and memory repeats in both directions. So the bytes of an operand are
those of certain cells, and it reads as their sum, each weighted by its position; nothing else in
memory matters, and neither does the number of turns. `History.integer_reads_are_positional` puts
this together with the range of what is read and of its change.
-/

set_option autoImplicit false

namespace Achievements

namespace Encoding

/-- The power of 256 that the byte at an offset counts. -/
def rank (encoding : Encoding) (offset : Nat) : Nat :=
  if encoding.isBigEndianInteger then encoding.byteLength - 1 - offset else offset

theorem assemble_little_eq_sum (byte : Nat → UInt8) (count : Nat) :
    assemble .littleEndian ((List.range count).map byte) =
      ∑ offset ∈ Finset.range count, (byte offset).toNat * 256 ^ offset := by
  induction count generalizing byte with
  | zero => rfl
  | succ count ih =>
      have rest := ih (byte ∘ Nat.succ)
      have first : assemble .littleEndian ((List.range (count + 1)).map byte) =
          (byte 0).toNat + 256 *
            assemble .littleEndian ((List.range count).map (byte ∘ Nat.succ)) := by
        rw [List.range_succ_eq_map, List.map_cons, List.map_map]
        rfl
      rw [first, rest, Finset.sum_range_succ', Finset.mul_sum, Nat.add_comm]
      congr 1
      · apply Finset.sum_congr rfl
        intro offset _
        rw [Function.comp_apply, Nat.pow_succ', Nat.mul_left_comm]
      · rw [Nat.pow_zero, Nat.mul_one]

theorem assemble_big_eq_sum (byte : Nat → UInt8) (count : Nat) :
    assemble .bigEndian ((List.range count).map byte) =
      ∑ offset ∈ Finset.range count, (byte offset).toNat * 256 ^ (count - 1 - offset) := by
  induction count with
  | zero => rfl
  | succ count ih =>
      have last : assemble .bigEndian ((List.range (count + 1)).map byte) =
          256 * assemble .bigEndian ((List.range count).map byte) + (byte count).toNat := by
        rw [List.range_succ, List.map_append, assemble, List.foldl_append]
        rfl
      rw [last, ih, Finset.sum_range_succ, Finset.mul_sum]
      congr 1
      · -- Every earlier byte moves up by one position.
        apply Finset.sum_congr rfl
        intro offset member
        have earlier := Finset.mem_range.mp member
        have up : count + 1 - 1 - offset = count - 1 - offset + 1 := by omega
        rw [up, Nat.pow_succ', Nat.mul_left_comm]
      · rw [Nat.add_sub_cancel, Nat.sub_self, Nat.pow_zero, Nat.mul_one]

/-- An integer of several bytes is their sum, each weighted by its rank. -/
theorem read_integer_eq_sum {encoding : Encoding} (integer : encoding.isReal = false)
    (several : 1 < encoding.byteLength) (byte : Nat → UInt8) :
    encoding.readInteger ((List.range encoding.byteLength).map byte) =
      ∑ offset ∈ Finset.range encoding.byteLength,
        (byte offset).toNat * 256 ^ encoding.rank offset := by
  cases encoding with
  | word16 order | word24 order | word32 order =>
      cases order with
      | littleEndian => exact assemble_little_eq_sum byte _
      | bigEndian => exact assemble_big_eq_sum byte _
  | untagged => exact assemble_little_eq_sum byte _
  | bit | lowNibble | highNibble | byte | bitCount => exact absurd several (Nat.lt_irrefl 1)
  | real => cases integer

end Encoding

namespace MemoryAccess

/-- The address of an operand that is moved by a bias. -/
def place (access : MemoryAccess) (bias : Int64) : Int :=
  access.address.toNat + bias.toInt

/-- The cell at an offset from there in memory of a given size, which repeats in both directions. -/
def cellAt (size : Nat) (access : MemoryAccess) (bias : Int64) (offset : Nat) : Nat :=
  ((access.place bias + offset) % size).toNat

/-- What an integer operand can read as in a buffer: a number in its range and, where it covers
several cells, the sum of their bytes, each weighted by its rank. -/
structure ReadsAs (access : MemoryAccess) (bias : Int64) (buffer : Array UInt8) (value : Int) :
    Prop where
  nonnegative : 0 ≤ value
  bounded : value ≤ access.encoding.maximum
  positional : 1 < access.encoding.byteLength →
    value = ∑ offset ∈ Finset.range access.encoding.byteLength,
      (buffer.getD (access.cellAt buffer.size bias offset) 0).toNat *
        256 ^ access.encoding.rank offset

/-- Buffers of one size that differ at most in cells that an operand does not cover. -/
structure Agrees (access : MemoryAccess) (bias : Int64) (left right : Array UInt8) : Prop where
  size : left.size = right.size
  cells : ∀ offset < access.encoding.byteLength,
    left[access.cellAt left.size bias offset]? = right[access.cellAt left.size bias offset]?

/-- A whole number of turns leads to the same cells. -/
theorem cell_at_of_turns {access other : MemoryAccess} {bias moved : Int64} {size : Nat}
    {turns : Int} (turned : other.place moved = access.place bias + turns * size) (offset : Nat) :
    other.cellAt size moved offset = access.cellAt size bias offset := by
  have reordered : other.place moved + offset = access.place bias + offset + turns * size := by
    rw [turned]
    omega
  rw [cellAt, cellAt, reordered, Int.add_mul_emod_self_right]

end MemoryAccess

namespace History

variable {history other : History} {access : MemoryAccess} {bias : Int64}

/-- The generations that an access refers to. -/
def sources (history : History) (access : MemoryAccess) : List (Array UInt8) :=
  if access.modifiers.delta then [history.now, history.prev] else [history.generation access]

/-- The bytes that an access finds in each of them. -/
def found (history : History) (access : MemoryAccess) (bias : Int64) : List (List UInt8) :=
  (history.sources access).map fun buffer =>
    bytesAt buffer (Int64.ofNat access.address.toNat + bias) access.encoding.byteLength

/-- The bytes found determine what is read. -/
theorem read_of_found {address : UInt32} {moved : Int64}
    (same : other.found { access with address } moved = history.found access bias) :
    other.read { access with address } moved = history.read access bias := by
  obtain ⟨encoding, start, modifiers⟩ := access
  unfold found sources at same
  simp only [read, integerIn, realIn]
  cases delta : modifiers.delta with
  | true =>
      simp only [delta, if_true, List.map_cons, List.map_nil, List.cons.injEq, and_true] at same
      simp only [if_true, same.1, same.2]
  | false =>
      simp only [delta, Bool.false_eq_true, if_false, List.map_cons, List.map_nil, List.cons.injEq,
        and_true] at same
      simp only [Bool.false_eq_true, if_false, same]

theorem size_of_source (even : history.Even) {buffer : Array UInt8}
    (member : buffer ∈ history.sources access) : buffer.size = history.size := by
  unfold sources generation at member
  split at member
  · rcases List.mem_pair.mp member with rfl | rfl
    · rfl
    · exact even.prev
  · rw [List.mem_singleton.mp member]
    split
    · exact even.prior
    · rfl

section Addressable

variable (within : access.place bias + 3 ≤ Int64.maxValue.toInt)

include within

/-- The bytes of an operand are those of its cells. -/
theorem bytes_at_place (buffer : Array UInt8) :
    bytesAt buffer (Int64.ofNat access.address.toNat + bias) access.encoding.byteLength =
      (List.range access.encoding.byteLength).map fun offset =>
        buffer.getD (access.cellAt buffer.size bias offset) 0 := by
  apply List.map_congr_left
  intro offset member
  have below := List.mem_range.mp member
  have short := access.encoding.byte_length_le
  rw [byteAt, to_int_place access.address bias (by omega) within]
  rfl

/-- The integer at an address is one that the operand can read as there. -/
theorem reads_as_integer (integer : access.encoding.isReal = false) (buffer : Array UInt8) :
    access.ReadsAs bias buffer (integerIn buffer access.encoding
      (Int64.ofNat access.address.toNat + bias)).toInt := by
  have bytes := bytes_at_place within buffer
  have length : (bytesAt buffer (Int64.ofNat access.address.toNat + bias)
      access.encoding.byteLength).length = access.encoding.byteLength := by
    rw [bytes, List.length_map, List.length_range]
  have bounded := access.encoding.read_integer_le integer _ length
  have small := access.read_integer_lt integer length
  rw [integerIn, Int64.toInt_ofNat_of_lt (by omega)]
  refine ⟨Int.natCast_nonneg _, Int.ofNat_le.mpr bounded, fun several => congrArg Nat.cast ?_⟩
  rw [bytes]
  exact Encoding.read_integer_eq_sum integer several _

theorem read_of_turns (even : history.Even) {address : UInt32} {moved : Int64} {turns : Int}
    (withinMoved : { access with address }.place moved + 3 ≤ Int64.maxValue.toInt)
    (turned : { access with address }.place moved = access.place bias + turns * history.size) :
    history.read { access with address } moved = history.read access bias := by
  apply read_of_found
  apply List.map_congr_left
  intro buffer member
  rw [bytes_at_place within, bytes_at_place withinMoved, size_of_source even member]
  apply List.map_congr_left
  intro offset _
  rw [MemoryAccess.cell_at_of_turns turned]

theorem bytes_of_agreeing {left right : Array UInt8} (agrees : access.Agrees bias left right) :
    bytesAt left (Int64.ofNat access.address.toNat + bias) access.encoding.byteLength =
      bytesAt right (Int64.ofNat access.address.toNat + bias) access.encoding.byteLength := by
  rw [bytes_at_place within, bytes_at_place within]
  apply List.map_congr_left
  intro offset member
  have cell := agrees.cells offset (List.mem_range.mp member)
  rw [← agrees.size, Array.getD_eq_getD_getElem?, cell, Array.getD_eq_getD_getElem?]

theorem read_of_agreeing
    (agree : List.Forall₂ (access.Agrees bias) (history.sources access) (other.sources access)) :
    other.read access bias = history.read access bias := by
  have bytes := agree.imp fun _ _ agrees => bytes_of_agreeing within agrees
  apply read_of_found
  symm
  rw [found, found, ← List.forall₂_eq_eq_eq, List.forall₂_map_left_iff, List.forall₂_map_right_iff]
  exact bytes

end Addressable

/-- An integer operand reads as a number in its range, and where it covers several cells as the sum
of their bytes, each weighted by its position. Its change is the difference of what it reads as now
and on the frame before, which never wraps. No read, whatever its modifiers, depends on other cells,
or on how often the address goes around memory. -/
theorem integer_reads_are_positional (even : history.Even)
    (integer : access.encoding.isReal = false)
    (within : access.place bias + 3 ≤ Int64.maxValue.toInt) :
    (∃ now prev change : Int64,
      history.read { access with modifiers := {} } bias = .int now ∧
      { history with now := history.prev }.read { access with modifiers := {} } bias = .int prev ∧
      access.ReadsAs bias history.now now.toInt ∧ access.ReadsAs bias history.prev prev.toInt ∧
      (∀ prior : Bool,
        history.read { access with modifiers := { delta := true, prior } } bias = .int change) ∧
      change.toInt = now.toInt - prev.toInt ∧
      -(access.encoding.maximum : Int) ≤ change.toInt ∧
      change.toInt ≤ access.encoding.maximum) ∧
    (∀ (address : UInt32) (moved : Int64) (turns : Int),
      { access with address }.place moved + 3 ≤ Int64.maxValue.toInt →
      { access with address }.place moved = access.place bias + turns * history.size →
        history.read { access with address } moved = history.read access bias) ∧
    ∀ other : History,
      List.Forall₂ (access.Agrees bias) (history.sources access) (other.sources access) →
        other.read access bias = history.read access bias := by
  have present := reads_as_integer within integer history.now
  have past := reads_as_integer within integer history.prev
  have difference := to_int_difference present.nonnegative past.nonnegative
  refine ⟨⟨_, _, _, read_unchanged integer rfl rfl rfl, read_unchanged integer rfl rfl rfl,
    present, past, fun _ => read_difference integer rfl rfl rfl, difference, ?_, ?_⟩, ?_, ?_⟩
  · have nonnegative := present.nonnegative
    have bounded := past.bounded
    omega
  · have bounded := present.bounded
    have nonnegative := past.nonnegative
    omega
  · intro address moved turns withinMoved turned
    exact read_of_turns within even withinMoved turned
  · intro other agree
    exact read_of_agreeing within agree

/-- A word of three bytes, the first of them in the last cell: 0x050102, and 0xFF0000 on the frame
before. -/
theorem straddling_word_is_read :
    let history : History := ⟨#[1, 2, 3, 4, 5], #[0, 0, 7, 7, 255], #[0, 0, 0, 0, 0]⟩
    let later : History := ⟨#[1, 2, 0, 9, 5], #[0, 0, 8, 8, 255], #[]⟩
    let access : MemoryAccess := ⟨.word24 .bigEndian, 1, { delta := true }⟩
    history.read { access with modifiers := {} } (-2) = .int 0x050102 ∧
    history.read access (-2) = .int (0x050102 - 0xFF0000) ∧
    history.read { access with address := 12 } (-3) = history.read access (-2) ∧
    later.read access (-2) = history.read access (-2) := by
  intro history later access
  have even : history.Even := ⟨rfl, rfl⟩
  have integer : access.encoding.isReal = false := rfl
  have within : access.place (-2) + 3 ≤ Int64.maxValue.toInt := by decide
  obtain ⟨⟨now, prev, change, live, -, present, past, changed, difference, -⟩, turned, agreeing⟩ :=
    integer_reads_are_positional even integer within
  have value : now = 0x050102 :=
    Int64.toInt_inj.mp ((present.positional (by decide)).trans (by decide))
  have before : prev = 0xFF0000 :=
    Int64.toInt_inj.mp ((past.positional (by decide)).trans (by decide))
  have fallen : change = 0x050102 - 0xFF0000 := by
    rw [value, before] at difference
    exact Int64.toInt_inj.mp (difference.trans (by decide))
  refine ⟨value ▸ live, fallen ▸ changed false, turned 12 (-3) 2 (by decide) (by decide),
    agreeing later ?_⟩
  exact .cons ⟨rfl, by decide⟩ (.cons ⟨rfl, by decide⟩ .nil)

end History

end Achievements
