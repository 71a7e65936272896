import Achievements.Proofs.Plan.Solving
import Achievements.Proofs.Plan.Watching

/-!
# Solved comparisons stay in place

The writes that solve a comparison change the operand and nothing else, down to the single bit: an
operand that covers a bit or half a byte shares its cell with others. Writes merge a value into a
cell through a mask, so a bit survives them whenever no mask that is applied to its cell has it
(`Ram.test_bit_write_of_clear`), and the masks of an operand have only the bits that it covers.
-/

set_option autoImplicit false

namespace Achievements

/-- Does the encoding take a bit of each cell that it covers? -/
def Encoding.Takes (bit : Nat) : Encoding → Prop
  | .bit index => bit = index
  | .lowNibble => bit < 4
  | .highNibble => 4 ≤ bit
  | _ => True

/-- The bits of memory that an operand covers: one bit, half a byte, or all bits of its cells. -/
def MemoryAccess.Covers (size : Nat) (access : MemoryAccess) (cell bit : Nat) : Prop :=
  cell ∈ access.cells size ∧ access.encoding.Takes bit

namespace Ram

/-- A bit that no mask has which is applied to its cell stays as it is. -/
theorem test_bit_write_of_clear (ram : Ram) (writes : List ByteWrite) (address bit : Nat)
    (clear : ∀ write ∈ writes, write.cell ram.size = address % ram.size →
      write.mask.toNat.testBit bit = false) :
    ((ram.write writes).peek address).toNat.testBit bit =
      (ram.peek address).toNat.testBit bit := by
  induction writes generalizing ram with
  | nil => rfl
  | cons first writes ih =>
      have rest := ih (Step.applyWrite ram first) fun write member same => by
        rw [size_apply_write] at same
        exact clear write (List.mem_cons_of_mem _ member) same
      rw [write_cons, rest]
      by_cases same : first.cell ram.size = address % ram.size
      · rcases Nat.eq_zero_or_pos ram.size with empty | nonempty
        · -- Memory without cells has no bits that a write could reach.
          have nothing : ram.bytes = #[] := Array.eq_empty_of_size_eq_zero empty
          simp [Step.applyWrite, poke, peek, nothing]
        · rw [ram.peek_apply_write_same first nonempty same, ByteWrite.test_bit_apply,
            clear first List.mem_cons_self same, if_neg Bool.false_ne_true]
      · rw [ram.peek_apply_write_other first same]

end Ram

namespace Solver

/-- The masks of the writes for an operand have no other bits than those that it takes. -/
theorem takes_of_masked {access : MemoryAccess} {held bit : Nat} {write : ByteWrite}
    (member : write ∈ writesOfHeld access held) (masked : write.mask.toNat.testBit bit = true) :
    access.encoding.Takes bit := by
  have low : bit < 8 := by
    by_contra high
    rw [ByteWrite.test_bit_of_beyond _ (Nat.le_of_not_lt high)] at masked
    cases masked
  obtain ⟨encoding, address, modifiers⟩ := access
  cases encoding with
  | bit index =>
      have single : ∀ index : Fin 8, ∀ bit < 8,
          (UInt8.ofNat (Nat.pow 2 index.val)).toNat.testBit bit = true → bit = index := by decide
      simp only [writesOfHeld, List.mem_singleton] at member
      rw [member] at masked
      exact single index bit low masked
  | lowNibble =>
      have half : ∀ bit < 8, (0x0F : UInt8).toNat.testBit bit = true → bit < 4 := by decide
      simp only [writesOfHeld, List.mem_singleton] at member
      rw [member] at masked
      exact half bit low masked
  | highNibble =>
      have half : ∀ bit < 8, (0xF0 : UInt8).toNat.testBit bit = true → 4 ≤ bit := by decide
      simp only [writesOfHeld, List.mem_singleton] at member
      rw [member] at masked
      exact half bit low masked
  | byte | bitCount | word16 | word24 | word32 | real | untagged => trivial

/-- The writes that solve a comparison of an integer operand are those of some number. -/
theorem held_of_writes_for {access : MemoryAccess} (integer : access.encoding.isReal = false)
    (comparison : Comparison) (number : Number) (desired : Bool) :
    ∃ held, writesFor access comparison number desired = writesOfHeld access held := by
  rw [writesFor, if_neg (by simp [integer])]
  exact ⟨_, rfl⟩

/-- Solving a comparison of an integer operand leaves all bits alone that the operand does not
cover. -/
theorem test_bit_writes_for (ram : Ram) {access : MemoryAccess} (comparison : Comparison)
    (number : Number) (desired : Bool) (integer : access.encoding.isReal = false)
    (within : access.address.toNat + access.encoding.byteLength ≤ 4294967296) (address bit : Nat)
    (outside : ¬ access.Covers ram.size (address % ram.size) bit) :
    ((ram.write (writesFor access comparison number desired)).peek address).toNat.testBit bit =
      (ram.peek address).toNat.testBit bit := by
  apply ram.test_bit_write_of_clear
  intro write member same
  by_contra masked
  have inCells := cell_of_writes_for ram.size integer within member
  obtain ⟨held, writes⟩ := held_of_writes_for integer comparison number desired
  rw [writes] at member
  rw [same] at inCells
  exact outside ⟨inCells, takes_of_masked member (by simpa using masked)⟩

end Solver

namespace Clause

/-- A comparison of an integer operand that can come out as desired does so for every engine that is
shown memory after its writes. Whether it can or not, no bit of memory changes that the operand does
not cover. -/
theorem solved_in_place {clause : Clause} {access : MemoryAccess} {number : Int64}
    (compares : clause.ComparesInteger access number) (ram : Ram) (fits : access.Fits ram.size)
    (desired : Bool) :
    let written := ram.write (Solver.solve clause desired)
    (clause.CanBe access desired → ∀ history : History,
      clause.outcome ((history.advance (.readable written)).read access 0) = desired) ∧
    written.size = ram.size ∧
    ∀ address bit, ¬ access.Covers ram.size (address % ram.size) bit →
      (written.peek address).toNat.testBit bit = (ram.peek address).toNat.testBit bit := by
  intro written
  refine ⟨fun possible history => ?_, ram.size_write _, fun address bit outside => ?_⟩
  · have reads : (history.advance (.readable written)).read access 0 =
        access.valueOf (written.contents access) := History.read_live compares.live rfl
    rw [reads]
    exact compares.outcome_solve ram fits possible
  · have solved : written =
        ram.write (Solver.writesFor access clause.facing (.int number) desired) :=
      congrArg ram.write (compares.solve_eq desired)
    rw [solved]
    exact Solver.test_bit_writes_for ram clause.facing (.int number) desired compares.integer
      fits.withinAddresses address bit outside

/-- Two inverted decimal digits in a big-endian word that wraps around, on the right of their
constant. -/
def wrappedDigits : Clause where
  flag := .plain
  left := .constant (.int (-13))
  comparison := .eq
  right := .memory ⟨.word16 .bigEndian, 7, { bcd := true, invert := true }⟩
  target := 0

theorem wrapped_digits_are_solved :
    Solver.solve wrappedDigits true = [⟨7, 0x00, 255⟩, ⟨8, 0x12, 255⟩] ∧
    wrappedDigits.outcome (((History.zeroed 8).advance
      (.readable ((Ram.zeroed 8).write (Solver.solve wrappedDigits true)))).read
        ⟨.word16 .bigEndian, 7, { bcd := true, invert := true }⟩ 0) = true :=
  ⟨by decide, (solved_in_place ⟨Or.inr ⟨rfl, rfl⟩, rfl, rfl⟩ (Ram.zeroed 8) (by decide) true).1
    ⟨[0x00, 0x12], ⟨rfl, by decide⟩, by decide⟩ _⟩

end Clause

end Achievements
