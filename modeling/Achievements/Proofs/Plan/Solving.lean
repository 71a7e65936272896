import Achievements.Proofs.Plan.Writes
import Achievements.Proofs.Progress.Counting

/-!
# Solved comparisons

A comparison of an integer operand with an integer constant is solved whenever some contents of the
operand solve it: `Clause.ComparesInteger.outcome_solve`. The value that is written lies in the range
of the operand, and within that range the solver finds a value on the right side of the constant.
-/

set_option autoImplicit false

namespace Achievements

namespace Comparison

/-- The relation of integers that a comparison stands for. -/
def relates : Comparison → Int → Int → Bool
  | .eq, left, right => left = right
  | .ne, left, right => left ≠ right
  | .lt, left, right => left < right
  | .le, left, right => left ≤ right
  | .gt, left, right => right < left
  | .ge, left, right => right ≤ left

theorem holds_compare_int (comparison : Comparison) (left right : Int64) :
    comparison.holds (Number.compare (.int left) (.int right)) =
      comparison.relates left.toInt right.toInt := by
  simp only [Number.compare, Number.compareInt, Int64.lt_iff_toInt_lt]
  rw [Bool.eq_iff_iff]
  by_cases less : left.toInt < right.toInt
  · rw [if_pos less]
    cases comparison <;> simp [holds, relates] <;> omega
  · rw [if_neg less]
    by_cases greater : right.toInt < left.toInt
    · rw [if_pos greater]
      cases comparison <;> simp [holds, relates] <;> omega
    · rw [if_neg greater]
      cases comparison <;> simp [holds, relates] <;> omega

theorem relates_converse (comparison : Comparison) (left right : Int) :
    comparison.converse.relates left right = comparison.relates right left := by
  cases comparison <;> simp [converse, relates, eq_comm]

end Comparison

namespace Solver

/-- Where some value of a range compares as desired, the one that is chosen does, and is in it. -/
theorem integer_target_spec (comparison : Comparison) (number low high value : Int) (desired : Bool)
    (proper : low < high) (lower : low ≤ value) (upper : value ≤ high)
    (solves : comparison.relates value number = desired) :
    low ≤ integerTarget comparison number low high desired ∧
      integerTarget comparison number low high desired ≤ high ∧
      comparison.relates (integerTarget comparison number low high desired) number = desired := by
  cases desired <;> cases comparison <;>
    simp only [Comparison.relates, decide_eq_true_eq, decide_eq_false_iff_not] at solves ⊢ <;>
    simp only [integerTarget] <;>
    omega

end Solver

namespace History

/-- The value that the modifiers make of a number. -/
def modified (modifiers : Modifiers) (held : Nat) : Int :=
  let decoded := if modifiers.bcd then held / 16 % 16 * 10 + held % 16 else held
  if modifiers.invert then Solver.complement decoded else decoded

theorem shift_nibble (held : Nat) (small : held < 4294967296) :
    Int64.ofNat held >>> 4 = Int64.ofNat (held / 16) := by
  apply Int64.toInt_inj.mp
  rw [Int64.toInt_ofNat_of_lt (by omega), ← Int64.toInt_toBitVec, Int64.toBitVec_shiftRight]
  change ((Int64.ofNat held).toBitVec.sshiftRight 4).toInt = _
  rw [BitVec.toInt_sshiftRight, Int64.toInt_toBitVec, Int64.toInt_ofNat_of_lt (by omega),
    Int.shiftRight_eq_div_pow]
  rfl

theorem mask_nibble (held : Nat) : Int64.ofNat held &&& 15 = Int64.ofNat (held % 16) := by
  apply Int64.toBitVec_inj.mp
  apply BitVec.eq_of_toNat_eq
  rw [Int64.toBitVec_and, BitVec.toNat_and]
  change held % 2 ^ 64 &&& (2 ^ 4 - 1) = held % 16 % 2 ^ 64
  rw [Nat.and_two_pow_sub_one_eq_mod]
  omega

theorem decode_bcd_of_nat (held : Nat) (small : held < 4294967296) :
    decodeBcd (Int64.ofNat held) = Int64.ofNat (held / 16 % 16 * 10 + held % 16) := by
  rw [decodeBcd, shift_nibble held small, mask_nibble, mask_nibble, Int64.ofNat_add,
    Int64.ofNat_mul]
  rfl

theorem toInt_complement (value : Nat) (small : value < 4294967296) :
    (~~~(Int64.ofNat value)).toInt = Solver.complement value := by
  rw [Int64.toInt_not, Int64.toInt_ofNat_of_lt (by omega), Solver.complement]
  exact Int.bmod_eq_of_le (by omega) (by omega)

theorem toInt_apply_modifiers (modifiers : Modifiers) (held : Nat) (small : held < 4294967296) :
    (applyModifiers modifiers (Int64.ofNat held)).toInt = modified modifiers held := by
  have decoded : (if modifiers.bcd then decodeBcd (Int64.ofNat held) else Int64.ofNat held) =
      Int64.ofNat (if modifiers.bcd then held / 16 % 16 * 10 + held % 16 else held) := by
    rw [decode_bcd_of_nat held small]
    cases modifiers.bcd <;> rfl
  have bound : (if modifiers.bcd then held / 16 % 16 * 10 + held % 16 else held) < 4294967296 := by
    split <;> omega
  rw [applyModifiers, decoded, modified]
  cases modifiers.invert with
  | true => exact toInt_complement _ bound
  | false => exact Int64.toInt_ofNat_of_lt (by omega)

end History

namespace MemoryAccess

/-- Bytes that an operand can hold: as many as it covers, and decimal digits in the low one where
these are decoded. -/
structure Admits (access : MemoryAccess) (bytes : List UInt8) : Prop where
  length : bytes.length = access.encoding.byteLength
  decimal : Solver.holdsDecimalDigits access = true →
    access.encoding.readInteger bytes % 16 ≤ 9 ∧ access.encoding.readInteger bytes / 16 % 16 ≤ 9

/-- The present value of an integer operand, as an integer. -/
def integerOf (access : MemoryAccess) (bytes : List UInt8) : Int :=
  History.modified access.modifiers (access.encoding.readInteger bytes)

theorem maximum_pos (access : MemoryAccess) : 1 ≤ access.encoding.maximum := by
  cases access.encoding with
  | bit | lowNibble | highNibble | bitCount => simp [Encoding.maximum]
  | byte | word16 | word24 | word32 | real | untagged =>
      simp only [Encoding.maximum, Encoding.byteLength]
      decide

theorem exists_value_of (access : MemoryAccess) (integer : access.encoding.isReal = false)
    (bytes : List UInt8) (length : bytes.length = access.encoding.byteLength) :
    ∃ value : Int64, access.valueOf bytes = .int value ∧ value.toInt = access.integerOf bytes := by
  refine ⟨_, if_neg (by simp [integer]), ?_⟩
  exact History.toInt_apply_modifiers _ _ (access.read_integer_lt integer length)

end MemoryAccess

namespace Solver

theorem maximum_of_decimal {access : MemoryAccess} (decimal : holdsDecimalDigits access = true) :
    access.modifiers.bcd = true ∧ 255 ≤ access.encoding.maximum := by
  simp only [holdsDecimalDigits, Bool.and_eq_true] at decimal
  obtain ⟨bcd, wide⟩ := decimal
  refine ⟨bcd, ?_⟩
  cases encoding : access.encoding with
  | bit | lowNibble | highNibble | bitCount => simp [encoding] at wide
  | byte | word16 | word24 | word32 | real | untagged =>
      simp only [Encoding.maximum, Encoding.byteLength]
      decide

theorem maximum_of_binary {access : MemoryAccess} (binary : holdsDecimalDigits access = false)
    (bcd : access.modifiers.bcd = true) : access.encoding.maximum ≤ 15 := by
  simp only [holdsDecimalDigits, bcd, Bool.true_and] at binary
  cases encoding : access.encoding with
  | bit | lowNibble | highNibble | bitCount => simp [Encoding.maximum]
  | byte | word16 | word24 | word32 | real | untagged => simp [encoding] at binary

/-- What an operand decodes to before inversion, where it holds decimal digits or none are
decoded. -/
theorem decoded_le_largest {access : MemoryAccess} {held : Nat}
    (small : held ≤ access.encoding.maximum)
    (decimal : holdsDecimalDigits access = true → held % 16 ≤ 9 ∧ held / 16 % 16 ≤ 9) :
    ((if access.modifiers.bcd then held / 16 % 16 * 10 + held % 16 else held : Nat) : Int) ≤
      largest access := by
  unfold largest
  cases digits : holdsDecimalDigits access with
  | true =>
      obtain ⟨bcd, wide⟩ := maximum_of_decimal digits
      obtain ⟨low, high⟩ := decimal digits
      simp only [bcd, if_true]
      omega
  | false =>
      cases bcd : access.modifiers.bcd with
      | true =>
          have narrow := maximum_of_binary digits bcd
          simp only [if_true, Bool.false_eq_true, if_false]
          omega
      | false =>
          simp only [Bool.false_eq_true, if_false]
          omega

/-- The value of bytes that an operand admits lies in its range. -/
theorem integer_of_in_range {access : MemoryAccess} (integer : access.encoding.isReal = false)
    {bytes : List UInt8} (admitted : access.Admits bytes) :
    (range access).1 ≤ access.integerOf bytes ∧ access.integerOf bytes ≤ (range access).2 := by
  have small := access.encoding.read_integer_le integer bytes admitted.length
  have bound := decoded_le_largest small admitted.decimal
  unfold range MemoryAccess.integerOf History.modified
  simp only
  generalize (if access.modifiers.bcd then access.encoding.readInteger bytes / 16 % 16 * 10 +
    access.encoding.readInteger bytes % 16 else access.encoding.readInteger bytes) = decoded
    at bound ⊢
  cases access.modifiers.invert with
  | true =>
      simp only [if_true, complement]
      omega
  | false =>
      simp only [Bool.false_eq_true, if_false]
      omega

/-- Undoing the modifiers of a value in the range gives a number that the operand can hold, and
that reads as the value. -/
theorem modified_undo {access : MemoryAccess} {value : Int} (lower : (range access).1 ≤ value)
    (upper : value ≤ (range access).2) :
    undoModifiers access value ≤ access.encoding.maximum ∧
      History.modified access.modifiers (undoModifiers access value) = value := by
  obtain ⟨decoded, bound, undone, inverted⟩ : ∃ decoded : Nat, (decoded : Int) ≤ largest access ∧
      undoModifiers access value =
        (if holdsDecimalDigits access then decoded / 10 * 16 + decoded % 10 else decoded) ∧
      (if access.modifiers.invert then complement decoded else decoded) = value := by
    unfold range at lower upper
    unfold undoModifiers
    cases invert : access.modifiers.invert with
    | true =>
        simp only [invert, if_true, complement] at lower upper ⊢
        exact ⟨(-value - 1).toNat, by omega, by
          rw [show max 0 (min (-value - 1) (largest access)) = -value - 1 by omega], by omega⟩
    | false =>
        simp only [invert, Bool.false_eq_true, if_false] at lower upper ⊢
        exact ⟨value.toNat, by omega, by
          rw [show max 0 (min value (largest access)) = value by omega], by omega⟩
  rw [undone]
  unfold largest at bound
  unfold History.modified
  cases digits : holdsDecimalDigits access with
  | true =>
      obtain ⟨bcd, wide⟩ := maximum_of_decimal digits
      simp only [digits, if_true] at bound ⊢
      have decimal : (decoded / 10 * 16 + decoded % 10) / 16 % 16 * 10 +
          (decoded / 10 * 16 + decoded % 10) % 16 = decoded := by omega
      simp only [bcd, if_true, decimal]
      exact ⟨by omega, inverted⟩
  | false =>
      simp only [digits, Bool.false_eq_true, if_false] at bound ⊢
      refine ⟨by omega, ?_⟩
      cases bcd : access.modifiers.bcd with
      | true =>
          have narrow := maximum_of_binary digits bcd
          have binary : decoded / 16 % 16 * 10 + decoded % 16 = decoded := by omega
          simp only [if_true, binary]
          exact inverted
      | false => exact inverted

theorem range_proper (access : MemoryAccess) : (range access).1 < (range access).2 := by
  have several := access.maximum_pos
  unfold range largest complement
  cases access.modifiers.invert <;> cases holdsDecimalDigits access <;> simp <;> omega

theorem range_of_bit {access : MemoryAccess} {index : Fin 8}
    (bit : access.encoding = .bit index) :
    range access = (min (bitValue access 0) (bitValue access 1),
      max (bitValue access 0) (bitValue access 1)) := by
  have one : largest access = 1 := by simp [largest, holdsDecimalDigits, bit, Encoding.maximum]
  unfold range bitValue
  rw [one]
  cases access.modifiers.invert <;> rfl

theorem holds_bit (access : MemoryAccess) (comparison : Comparison) (number : Int64) (state : Int)
    (binary : state = 0 ∨ state = 1) :
    comparison.holds (Number.compare (.int (Int64.ofInt (bitValue access state))) (.int number)) =
      comparison.relates (bitValue access state) number.toInt := by
  have same : (Int64.ofInt (bitValue access state)).toInt = bitValue access state := by
    unfold bitValue
    rcases binary with rfl | rfl <;> cases access.modifiers.invert <;> rfl
  rw [Comparison.holds_compare_int, same]

/-- A single bit has two values only, and the right one is found by trying both. -/
theorem exists_bit_target {access : MemoryAccess} (comparison : Comparison) (number : Number)
    (desired : Bool) {value : Int}
    (binary : value = bitValue access 0 ∨ value = bitValue access 1)
    (solves : comparison.holds (Number.compare (.int (Int64.ofInt value)) number) = desired) :
    ∃ state : Int, (state = 0 ∨ state = 1) ∧
      bitTarget access comparison number desired = bitValue access state ∧
      comparison.holds (Number.compare (.int (Int64.ofInt (bitValue access state))) number) =
        desired := by
  obtain ⟨outcome, outcomes⟩ : ∃ outcome : Int → Bool, ∀ state, outcome state =
      comparison.holds (Number.compare (.int (Int64.ofInt (bitValue access state))) number) :=
    ⟨_, fun _ => rfl⟩
  have someState : outcome 0 = desired ∨ outcome 1 = desired := by
    rw [outcomes, outcomes]
    rcases binary with rfl | rfl
    · exact Or.inl solves
    · exact Or.inr solves
  simp only [bitTarget, ← outcomes]
  cases desired with
  | true =>
      simp only [if_true, beq_iff_eq]
      by_cases set : outcome 1 = true
      · exact ⟨1, Or.inr rfl, if_pos set, set⟩
      · have clear := someState.resolve_right set
        exact ⟨0, Or.inl rfl, by rw [if_neg set, if_pos clear], clear⟩
  | false =>
      simp only [Bool.false_eq_true, if_false, beq_iff_eq]
      by_cases clear : outcome 0 = false
      · exact ⟨0, Or.inl rfl, if_pos clear, clear⟩
      · have set := someState.resolve_left clear
        exact ⟨1, Or.inr rfl, by rw [if_neg clear, if_pos set], set⟩

theorem bit_value_in_range {access : MemoryAccess} {index : Fin 8}
    (bit : access.encoding = .bit index) {state : Int} (binary : state = 0 ∨ state = 1) :
    (range access).1 ≤ bitValue access state ∧ bitValue access state ≤ (range access).2 := by
  rw [range_of_bit bit]
  rcases binary with rfl | rfl <;> constructor <;> simp only <;> omega

theorem bit_value_of_range {access : MemoryAccess} {index : Fin 8}
    (bit : access.encoding = .bit index) {value : Int} (lower : (range access).1 ≤ value)
    (upper : value ≤ (range access).2) :
    value = bitValue access 0 ∨ value = bitValue access 1 := by
  have neighbours : bitValue access 0 - bitValue access 1 = 1 ∨
      bitValue access 1 - bitValue access 0 = 1 := by
    unfold bitValue complement
    cases access.modifiers.invert <;> simp
  rw [range_of_bit bit] at lower upper
  simp only at lower upper
  omega

theorem bit_target_spec {access : MemoryAccess} {index : Fin 8}
    (bit : access.encoding = .bit index) (comparison : Comparison) (number : Int64) (value : Int)
    (desired : Bool) (lower : (range access).1 ≤ value) (upper : value ≤ (range access).2)
    (solves : comparison.relates value number.toInt = desired) :
    (range access).1 ≤ bitTarget access comparison (.int number) desired ∧
      bitTarget access comparison (.int number) desired ≤ (range access).2 ∧
      comparison.relates (bitTarget access comparison (.int number) desired) number.toInt =
        desired := by
  have binary := bit_value_of_range bit lower upper
  have holds : comparison.holds (Number.compare (.int (Int64.ofInt value)) (.int number)) =
      desired := by
    rcases binary with rfl | rfl
    · rw [holds_bit access comparison number 0 (Or.inl rfl), solves]
    · rw [holds_bit access comparison number 1 (Or.inr rfl), solves]
  obtain ⟨state, known, target, related⟩ :=
    exists_bit_target comparison (.int number) desired binary holds
  rw [holds_bit access comparison number state known] at related
  rw [target]
  exact ⟨(bit_value_in_range bit known).1, (bit_value_in_range bit known).2, related⟩

/-- Writing a value of the range gives the operand that value. -/
theorem integer_of_writes (ram : Ram) {access : MemoryAccess} {value : Int}
    (integer : access.encoding.isReal = false) (fits : access.Fits ram.size)
    (lower : (range access).1 ≤ value) (upper : value ≤ (range access).2) :
    access.integerOf ((ram.write (writesOfValue access value)).contents access) = value := by
  obtain ⟨small, reads⟩ := modified_undo lower upper
  have held := ram.read_integer_after_held access (undoModifiers access value) integer fits small
  rw [MemoryAccess.integerOf, writesOfValue, held, reads]

/-- An operand compares with a number as desired after the writes for it, if it can at all. -/
theorem relates_after_writes (ram : Ram) {access : MemoryAccess} (comparison : Comparison)
    (number : Int64) (desired : Bool) (integer : access.encoding.isReal = false)
    (fits : access.Fits ram.size) {bytes : List UInt8} (admitted : access.Admits bytes)
    (solves : comparison.relates (access.integerOf bytes) number.toInt = desired) :
    comparison.relates (access.integerOf
        ((ram.write (writesFor access comparison (.int number) desired)).contents access))
      number.toInt = desired := by
  obtain ⟨lower, upper⟩ := integer_of_in_range integer admitted
  obtain ⟨target, writes, targetLower, targetUpper, related⟩ : ∃ target,
      writesFor access comparison (.int number) desired = writesOfValue access target ∧
      (range access).1 ≤ target ∧ target ≤ (range access).2 ∧
      comparison.relates target number.toInt = desired := by
    unfold writesFor
    rw [if_neg (by simp [integer])]
    cases bit : access.encoding.bitIndex? with
    | some index =>
        have single : access.encoding = .bit index := by
          cases encoding : access.encoding <;> simp [encoding, Encoding.bitIndex?] at bit
          rw [bit]
        exact ⟨_, rfl, bit_target_spec single comparison number _ desired lower upper solves⟩
    | none =>
        exact ⟨_, rfl, integer_target_spec comparison number.toInt _ _ _ desired
          (range_proper access) lower upper solves⟩
  rw [writes, integer_of_writes ram integer fits targetLower targetUpper]
  exact related

theorem cell_of_writes_for {access : MemoryAccess} {comparison : Comparison} {number : Number}
    {desired : Bool} {write : ByteWrite} (size : Nat) (integer : access.encoding.isReal = false)
    (within : access.address.toNat + access.encoding.byteLength ≤ 4294967296)
    (member : write ∈ writesFor access comparison number desired) :
    write.cell size ∈ access.cells size := by
  rw [writesFor, if_neg (by simp [integer])] at member
  exact cell_of_writes_of_held size integer within member

end Solver

/-- The value of one side of a comparison while memory has some value. -/
def Operand.readAs (value : Number) : Operand → Number
  | .memory _ => value
  | .constant number => number
  | .recall => .zero

namespace Clause

/-- Does the comparison of a clause hold while its memory operand has some value? -/
def outcome (clause : Clause) (value : Number) : Bool :=
  clause.comparison.holds ((clause.left.readAs value).compare (clause.right.readAs value))

/-- The comparison of the side that is written with the other one. -/
def facing (clause : Clause) : Comparison :=
  match clause.left with
  | .memory _ => clause.comparison
  | _ => clause.comparison.converse

theorem solve_of_sides {clause : Clause} {access : MemoryAccess} {number : Number}
    (sides : clause.left = .memory access ∧ clause.right = .constant number ∨
      clause.left = .constant number ∧ clause.right = .memory access) (desired : Bool) :
    Solver.solve clause desired = Solver.writesFor access clause.facing number desired := by
  rcases sides with ⟨left, right⟩ | ⟨left, right⟩ <;>
    simp only [Solver.solve, facing, left, right] <;> rfl

/-- Can some contents of an operand make a clause come out as desired? -/
def CanBe (clause : Clause) (access : MemoryAccess) (desired : Bool) : Prop :=
  ∃ bytes, access.Admits bytes ∧ clause.outcome (access.valueOf bytes) = desired

/-- A clause that compares an integer operand of the current frame, on either side, with an integer
constant. -/
structure ComparesInteger (clause : Clause) (access : MemoryAccess) (number : Int64) : Prop where
  sides : clause.left = .memory access ∧ clause.right = .constant (.int number) ∨
    clause.left = .constant (.int number) ∧ clause.right = .memory access
  integer : access.encoding.isReal = false
  live : access.isLive = true

namespace ComparesInteger

variable {clause : Clause} {access : MemoryAccess} {number : Int64}

theorem solve_eq (compares : clause.ComparesInteger access number) (desired : Bool) :
    Solver.solve clause desired =
      Solver.writesFor access clause.facing (.int number) desired :=
  solve_of_sides compares.sides desired

/-- Whichever side the operand is on, it compares with the constant as the side that is written
does. -/
theorem outcome_eq (compares : clause.ComparesInteger access number) (value : Int64) :
    clause.outcome (.int value) = clause.facing.relates value.toInt number.toInt := by
  rcases compares.sides with ⟨left, right⟩ | ⟨left, right⟩
  · rw [outcome, facing, left, right]
    exact Comparison.holds_compare_int _ _ _
  · rw [outcome, facing, left, right, Comparison.relates_converse]
    exact Comparison.holds_compare_int _ _ _

/-- A clause that can come out as desired does so once it is solved. -/
theorem outcome_solve (compares : clause.ComparesInteger access number) (ram : Ram)
    (fits : access.Fits ram.size) {desired : Bool} (possible : clause.CanBe access desired) :
    clause.outcome
      (access.valueOf ((ram.write (Solver.solve clause desired)).contents access)) = desired := by
  obtain ⟨bytes, admitted, solves⟩ := possible
  obtain ⟨value, hasValue, integer⟩ :=
    access.exists_value_of compares.integer bytes admitted.length
  rw [hasValue, compares.outcome_eq, integer] at solves
  have related := Solver.relates_after_writes ram clause.facing number desired compares.integer
    fits admitted solves
  obtain ⟨written, hasWritten, writtenInteger⟩ := access.exists_value_of compares.integer _
    ((ram.write (Solver.solve clause desired)).length_contents access)
  rw [hasWritten, compares.outcome_eq, writtenInteger, compares.solve_eq]
  exact related

theorem cell_of_solve (compares : clause.ComparesInteger access number) {size : Nat}
    (fits : access.Fits size) {desired : Bool} {write : ByteWrite}
    (member : write ∈ Solver.solve clause desired) : write.cell size ∈ access.cells size := by
  rw [compares.solve_eq] at member
  exact Solver.cell_of_writes_for size compares.integer fits.withinAddresses member

/-- On a frame, the clause comes out as the present bytes of its operand make it. -/
theorem holds_on (compares : clause.ComparesInteger access number) {history : History} {ram : Ram}
    (now : history.now = ram.bytes) :
    clause.holdsOn history = clause.outcome (access.valueOf (ram.contents access)) := by
  have reads := History.read_live compares.live now
  obtain ⟨value, hasValue, _⟩ :=
    access.exists_value_of compares.integer _ (ram.length_contents access)
  rw [hasValue] at reads ⊢
  have unmoved : Number.int value + Number.zero = .int value :=
    congrArg Number.int (Int64.add_zero _)
  have constant : Number.int number + Number.zero = .int number :=
    congrArg Number.int (Int64.add_zero _)
  rcases compares.sides with ⟨left, right⟩ | ⟨left, right⟩
  · simp only [holdsOn, Sight.holdsAlone, Sight.holds, Sight.left, Sight.value, left, right, reads,
      outcome, Operand.readAs, unmoved]
  · simp only [holdsOn, Sight.holdsAlone, Sight.holds, Sight.left, Sight.value, left, right, reads,
      outcome, Operand.readAs, constant]

end ComparesInteger

end Clause

end Achievements
