import Achievements.Proofs.Ieee.Integers
import Achievements.Proofs.Ieee.Sums
import Achievements.Proofs.Memory.Reals
import Achievements.Proofs.Plan.Solving

/-!
# Comparisons with floating-point constants

A target for a comparison with a fraction is computed as if nothing were lost on the way into
memory. An integer operand, however, is aimed at the constant without its fraction, and a
floating-point operand keeps only what its format has room for. `Clause.fraction_is_solved_iff` says
exactly when the comparison comes out as desired nevertheless.
-/

set_option autoImplicit false

namespace Achievements

open Ieee

namespace Comparison

/-- The relation that a comparison stands for. -/
def Compares {α : Type} [LinearOrder α] : Comparison → α → α → Prop
  | .eq, left, right => left = right
  | .ne, left, right => left ≠ right
  | .lt, left, right => left < right
  | .le, left, right => left ≤ right
  | .gt, left, right => right < left
  | .ge, left, right => right ≤ left

theorem holds_cmp {α : Type} [LinearOrder α] (comparison : Comparison) (left right : α) :
    comparison.holds (cmp left right) = true ↔ comparison.Compares left right := by
  rcases lt_trichotomy left right with less | rfl | more
  · rw [cmp_eq_lt_iff left right |>.mpr less]
    cases comparison <;> simp [holds, Compares, less, less.le, less.ne, less.not_gt, less.not_ge]
  · rw [cmp_self_eq_eq]
    cases comparison <;> simp [holds, Compares]
  · rw [cmp_eq_gt_iff left right |>.mpr more]
    cases comparison <;> simp [holds, Compares, more, more.le, more.ne', more.not_gt, more.not_ge]

theorem compares_coe (comparison : Comparison) (left right : ℚ) :
    comparison.Compares ((left : WithTop ℚ) : WithBot (WithTop ℚ)) ((right : ℚ) : WithTop ℚ) ↔
      comparison.Compares left right := by
  cases comparison <;> simp [Compares, WithBot.coe_inj, WithTop.coe_inj]

/-- The comparison that holds where another one does not. -/
def negation : Comparison → Comparison
  | .eq => .ne
  | .ne => .eq
  | .lt => .ge
  | .le => .gt
  | .gt => .le
  | .ge => .lt

theorem holds_negation (comparison : Comparison) (order : Ordering) :
    comparison.negation.holds order = !comparison.holds order := by
  cases comparison <;> cases order <;> rfl

/-- A comparison of an integer with a fraction, by the integers around the fraction. -/
def Lies (value floor ceiling : ℤ) : Comparison → Prop
  | .eq => value ≤ floor ∧ ceiling ≤ value
  | .ne => floor < value ∨ value < ceiling
  | .lt => value < ceiling
  | .le => value ≤ floor
  | .gt => floor < value
  | .ge => ceiling ≤ value

theorem compares_iff_lies (comparison : Comparison) (value : ℤ) (number : ℚ) :
    comparison.Compares (value : ℚ) number ↔ comparison.Lies value ⌊number⌋ ⌈number⌉ := by
  have equal : (value : ℚ) = number ↔ value ≤ ⌊number⌋ ∧ ⌈number⌉ ≤ value := by
    rw [le_antisymm_iff, Int.le_floor, Int.ceil_le]
  cases comparison with
  | eq => exact equal
  | ne =>
      rw [Compares, ne_eq, equal, Lies]
      omega
  | lt => exact Int.lt_ceil.symm
  | le => exact Int.le_floor.symm
  | gt => exact Int.floor_lt.symm
  | ge => exact Int.ceil_le.symm

/-- Does the constant without its fraction lie on the right side, as far as the range of an operand
does not decide it? -/
def SparesFraction (inverted : Bool) (number : ℚ) : Comparison → Prop
  | .ge => inverted = true ∨ number ≤ 0 ∨ (⌊number⌋ : ℚ) = number
  | .le => inverted = false ∨ -1 ≤ number ∨ (⌊number⌋ : ℚ) = number
  | _ => True

theorem floor_eq_iff_ceiling (number : ℚ) :
    (⌊number⌋ : ℚ) = number ↔ ⌊number⌋ = ⌈number⌉ := by
  constructor
  · intro whole
    have ceiling := congrArg Int.ceil whole
    rwa [Int.ceil_intCast] at ceiling
  · intro same
    apply le_antisymm (Int.floor_le number)
    rw [same]
    exact Int.le_ceil number

/-- The same by the integers around the fraction. -/
def SparesAround (inverted : Bool) (floor ceiling : ℤ) : Comparison → Prop
  | .ge => inverted = true ∨ ceiling ≤ 0 ∨ floor = ceiling
  | .le => inverted = false ∨ -1 ≤ floor ∨ floor = ceiling
  | _ => True

theorem spares_fraction_iff (comparison : Comparison) (inverted : Bool) (number : ℚ) :
    comparison.SparesFraction inverted number ↔
      comparison.SparesAround inverted ⌊number⌋ ⌈number⌉ := by
  have ceiling : number ≤ 0 ↔ ⌈number⌉ ≤ 0 := by
    rw [Int.ceil_le, Int.cast_zero]
  have floor : -1 ≤ number ↔ -1 ≤ ⌊number⌋ := by
    rw [Int.le_floor, Int.cast_neg, Int.cast_one]
  cases comparison <;>
    simp only [SparesFraction, SparesAround, floor_eq_iff_ceiling, ceiling, floor]

/-- The number that is aimed at so that a comparison with another one holds. -/
def aim (number : ℚ) : Comparison → ℚ
  | .ne | .gt => Format.double.rounded (number + 1)
  | .lt => Format.double.rounded (number - 1)
  | _ => number

end Comparison

namespace Solver

/-- To make a comparison fail is to make its negation hold. -/
theorem integer_target_desired (comparison : Comparison) (number low high : Int) (desired : Bool) :
    integerTarget comparison number low high desired = integerTarget
      (if desired then comparison else comparison.negation) number low high true := by
  cases desired <;> cases comparison <;> rfl

theorem real_target_desired (comparison : Comparison) (number : Float) (desired : Bool) :
    realTarget comparison number desired =
      realTarget (if desired then comparison else comparison.negation) number true := by
  cases desired <;> cases comparison <;> rfl

theorem real_target_eq (comparison : Comparison) {number : Float}
    (finite : isFinite number = true) :
    isFinite (realTarget comparison number true) = true ∧
      worth (realTarget comparison number true) = comparison.aim (worth number) := by
  cases comparison with
  | eq | le | ge => exact ⟨finite, rfl⟩
  | ne | gt => exact number_of_succ finite
  | lt => exact number_of_pred finite

/-- The target for a comparison of an integer with a fraction, of which only the whole part is
known. -/
theorem integer_target_lies (comparison : Comparison) {floor ceiling low high value whole : ℤ}
    (around : floor ≤ ceiling ∧ ceiling ≤ floor + 1)
    (wholePart : whole = max (-9223372036854775808)
      (min (if 0 ≤ floor then floor else ceiling) 9223372036854775807))
    (wide : -4294967296 ≤ low ∧ high < 4294967296) (proper : low < high)
    (lower : low ≤ value) (upper : value ≤ high) (lies : comparison.Lies value floor ceiling)
    (inverted : Bool) (range : if inverted then high = -1 else low = 0) :
    low ≤ integerTarget comparison whole low high true ∧
      integerTarget comparison whole low high true ≤ high ∧
      (comparison.Lies (integerTarget comparison whole low high true) floor ceiling ↔
        comparison.SparesAround inverted floor ceiling) := by
  -- The operand has at most 32 bits, so clamping to 64 never matters. What is left is linear.
  cases inverted <;> cases comparison <;>
    simp only [Comparison.Lies, Comparison.SparesAround, integerTarget, if_true,
      Bool.false_eq_true, if_false, true_or, false_or, iff_true, reduceCtorEq] at lies range ⊢ <;>
    omega

theorem range_bounds (access : MemoryAccess) :
    -4294967296 ≤ (range access).1 ∧ (range access).2 < 4294967296 := by
  have small := access.maximum_lt
  unfold range largest complement
  cases access.modifiers.invert <;> cases holdsDecimalDigits access <;> simp <;> omega

theorem range_end (access : MemoryAccess) :
    if access.modifiers.invert then (range access).2 = -1 else (range access).1 = 0 := by
  unfold range
  cases access.modifiers.invert <;> rfl

end Solver

/-- What decides whether an operand can be made to compare with a fraction by aiming at it. -/
def MemoryAccess.Attains (access : MemoryAccess) (comparison : Comparison) (number : ℚ) : Prop :=
  match access.encoding with
  | .real format _ => comparison = .eq ∨
      comparison.Compares (format.kept (comparison.aim number)) ((number : ℚ) : WithTop ℚ)
  | .bit _ => True
  | _ => comparison.SparesFraction access.modifiers.invert number

namespace Clause

/-- The comparison that has to hold for a clause to come out as desired. -/
def wanted (clause : Clause) (desired : Bool) : Comparison :=
  if desired then clause.facing else clause.facing.negation

/-- A clause that compares an operand of the current frame, on either side, with a finite
floating-point constant. -/
structure ComparesReal (clause : Clause) (access : MemoryAccess) (number : Float) : Prop where
  sides : clause.left = .memory access ∧ clause.right = .constant (.real number) ∨
    clause.left = .constant (.real number) ∧ clause.right = .memory access
  finite : isFinite number = true
  live : access.isLive = true
  interchange : ∀ order, access.encoding ≠ .real .microsoft order

namespace ComparesReal

variable {clause : Clause} {access : MemoryAccess} {number : Float}
  (compares : clause.ComparesReal access number)

include compares

theorem solve_eq (desired : Bool) : Solver.solve clause desired =
    Solver.writesFor access clause.facing (.real number) desired :=
  solve_of_sides compares.sides desired

theorem outcome_eq (value : Number) :
    clause.outcome value = clause.facing.holds (Number.compare value (.real number)) := by
  have swapped : Number.compare (.real number) value =
      (Number.compare value (.real number)).swap := by
    cases value <;> exact (compare_real_swap _ _).symm
  rcases compares.sides with ⟨left, right⟩ | ⟨left, right⟩
  · rw [outcome, Clause.facing, left, right]
    rfl
  · have exchanged := clause.comparison.converse.holds_converse
      (Number.compare value (.real number))
    -- The constant stands on the left, so both the comparison and the order are turned round.
    have twice : clause.comparison.converse.converse = clause.comparison := by
      cases clause.comparison <;> rfl
    rw [twice, ← swapped] at exchanged
    rw [outcome, Clause.facing, left, right]
    exact exchanged

/-- A clause comes out as desired where its operand has a number on the right side. -/
theorem outcome_iff (value : Number) (desired : Bool) : clause.outcome value = desired ↔
    (clause.wanted desired).Compares (datum value.toReal).place
      ((worth number : ℚ) : WithTop ℚ) := by
  have placed : Number.compare value (.real number) =
      cmp (datum value.toReal).place ((worth number : ℚ) : WithTop ℚ) := by
    cases value <;> exact compare_real_right _ compares.finite
  rw [compares.outcome_eq, placed, ← Comparison.holds_cmp, wanted]
  cases desired with
  | true => rfl
  | false => simp [Comparison.holds_negation]

/-! ## Floating-point operands -/

theorem format_ne {format : RealFormat} {order : ByteOrder}
    (encoding : access.encoding = .real format order) : format ≠ .microsoft := by
  rintro rfl
  exact compares.interchange order encoding

/-- A floating-point operand that is solved reads what its format keeps of the number aimed at. -/
theorem place_of_solved {format : RealFormat} {order : ByteOrder}
    (encoding : access.encoding = .real format order) (ram : Ram) (fits : access.Fits ram.size)
    (desired : Bool) :
    (datum (access.valueOf
      ((ram.write (Solver.solve clause desired)).contents access)).toReal).place =
        format.kept ((clause.wanted desired).aim (worth number)) := by
  have interchange := compares.format_ne encoding
  have real : access.encoding.isReal = true := by
    rw [encoding]
    rfl
  have target : Solver.realTarget clause.facing number desired =
      Solver.realTarget (clause.wanted desired) number true :=
    Solver.real_target_desired clause.facing number desired
  have writes : Solver.solve clause desired = ByteWrite.consecutive access.address
      (access.encoding.realBytes (Solver.realTarget (clause.wanted desired) number true)) := by
    rw [compares.solve_eq, Solver.writesFor, if_pos real, Number.toReal, target]
  obtain ⟨finite, worth⟩ := Solver.real_target_eq (clause.wanted desired) compares.finite
  rw [MemoryAccess.valueOf, if_pos real, writes,
    ram.read_real_after_write encoding interchange fits, Number.toReal,
    RealFormat.place_of_written interchange finite, worth]

/-- A number that an operand can have is kept by its format. -/
theorem kept_of_can_be {format : RealFormat} {order : ByteOrder}
    (encoding : access.encoding = .real format order) {desired : Bool}
    (possible : clause.CanBe access desired) (equal : clause.wanted desired = .eq) :
    format.kept (worth number) = ((worth number : ℚ) : WithTop ℚ) := by
  obtain ⟨bytes, admitted, solves⟩ := possible
  rw [compares.outcome_iff, equal] at solves
  have length : bytes.length = 4 := by
    rw [admitted.length, encoding]
    rfl
  have small : Encoding.assemble order bytes < 2 ^ 32 := by
    have bound := Encoding.assemble_lt order bytes
    rwa [length] at bound
  refine RealFormat.kept_of_decode (compares.format_ne encoding) small ?_
  rw [MemoryAccess.valueOf, encoding] at solves
  exact solves

/-! ## Integer operands -/

/-- An integer operand that holds some bytes comes out as its value compares with the constant. -/
theorem outcome_of_bytes (integer : access.encoding.isReal = false) {bytes : List UInt8}
    (length : bytes.length = access.encoding.byteLength) (desired : Bool)
    (small : (access.integerOf bytes).natAbs < 2 ^ 53) :
    clause.outcome (access.valueOf bytes) = desired ↔
      (clause.wanted desired).Compares (access.integerOf bytes : ℚ) (worth number) := by
  obtain ⟨value, hasValue, same⟩ := access.exists_value_of integer bytes length
  rw [← same] at small ⊢
  obtain ⟨finite, worth⟩ := number_of_int small
  rw [hasValue, compares.outcome_iff, Number.toReal, place_of_finite finite, worth,
    Comparison.compares_coe]

/-- An integer operand of more than one bit is aimed at the whole part of the constant. -/
theorem solve_integer (integer : access.encoding.isReal = false)
    (several : access.encoding.bitIndex? = none) (desired : Bool) :
    Solver.solve clause desired = Solver.writesOfValue access
      (Solver.integerTarget (clause.wanted desired) (truncate number).toInt
        (Solver.range access).1 (Solver.range access).2 true) := by
  have target : Solver.integerTarget clause.facing (truncate number).toInt
      (Solver.range access).1 (Solver.range access).2 desired = Solver.integerTarget
        (clause.wanted desired) (truncate number).toInt (Solver.range access).1
        (Solver.range access).2 true :=
    Solver.integer_target_desired clause.facing _ _ _ desired
  rw [compares.solve_eq, Solver.writesFor, if_neg (by simp [integer]), several]
  exact congrArg (Solver.writesOfValue access) target

theorem solved_integer_iff (integer : access.encoding.isReal = false)
    (several : access.encoding.bitIndex? = none) (ram : Ram) (fits : access.Fits ram.size)
    {desired : Bool} (possible : clause.CanBe access desired) :
    clause.outcome (access.valueOf
      ((ram.write (Solver.solve clause desired)).contents access)) = desired ↔
        (clause.wanted desired).SparesFraction access.modifiers.invert (worth number) := by
  obtain ⟨lowest, highest⟩ := Solver.range_bounds access
  obtain ⟨bytes, admitted, solves⟩ := possible
  obtain ⟨lower, upper⟩ := Solver.integer_of_in_range integer admitted
  rw [compares.outcome_of_bytes integer admitted.length desired (by omega),
    Comparison.compares_iff_lies] at solves
  have whole : (truncate number).toInt = max (-9223372036854775808)
      (min (if 0 ≤ ⌊worth number⌋ then ⌊worth number⌋ else ⌈worth number⌉)
        9223372036854775807) := by
    rw [to_int_truncate compares.finite, towardZero]
    simp only [Int.floor_nonneg]
  -- The value that solves the comparison bounds the constant by the range of the operand.
  obtain ⟨targetLower, targetUpper, lies⟩ := Solver.integer_target_lies (clause.wanted desired)
    ⟨Int.floor_le_ceil _, Int.ceil_le_floor_add_one _⟩ whole ⟨lowest, highest⟩
    (Solver.range_proper access) lower upper solves access.modifiers.invert
    (Solver.range_end access)
  have held := Solver.integer_of_writes ram integer fits targetLower targetUpper
  rw [← compares.solve_integer integer several desired] at held
  rw [compares.outcome_of_bytes integer (ram.write _ |>.length_contents access) desired
    (by rw [held]; omega), held, Comparison.compares_iff_lies, lies,
    Comparison.spares_fraction_iff]

/-- A single bit is solved by trying both of its states, whatever it is compared with. -/
theorem solved_bit {index : Fin 8} (bit : access.encoding = .bit index) (ram : Ram)
    (fits : access.Fits ram.size) {desired : Bool} (possible : clause.CanBe access desired) :
    clause.outcome (access.valueOf
      ((ram.write (Solver.solve clause desired)).contents access)) = desired := by
  have integer : access.encoding.isReal = false := by
    rw [bit]
    rfl
  obtain ⟨bytes, admitted, solves⟩ := possible
  obtain ⟨lower, upper⟩ := Solver.integer_of_in_range integer admitted
  obtain ⟨value, hasValue, same⟩ := access.exists_value_of integer bytes admitted.length
  have stored : Int64.ofInt (access.integerOf bytes) = value := by
    rw [← same, Int64.ofInt_toInt]
  rw [hasValue, compares.outcome_eq, ← stored] at solves
  obtain ⟨state, known, target, related⟩ := Solver.exists_bit_target clause.facing (.real number)
    desired (Solver.bit_value_of_range bit lower upper) solves
  have writes : Solver.solve clause desired =
      Solver.writesOfValue access (Solver.bitValue access state) := by
    rw [compares.solve_eq, Solver.writesFor, if_neg (by simp [integer]), bit]
    exact congrArg (Solver.writesOfValue access) target
  obtain ⟨stateLower, stateUpper⟩ := Solver.bit_value_in_range bit known
  have held := Solver.integer_of_writes ram integer fits stateLower stateUpper
  obtain ⟨written, hasWritten, writtenSame⟩ := access.exists_value_of integer _
    ((ram.write (Solver.solve clause desired)).length_contents access)
  rw [← writes] at held
  rw [held] at writtenSame
  rw [← writtenSame, Int64.ofInt_toInt] at related
  rw [hasWritten, compares.outcome_eq]
  exact related

end ComparesReal

/-- A comparison with a finite floating-point constant that some contents of its operand make come
out as desired is solved just if nothing decisive is lost on the way into memory. -/
theorem fraction_is_solved_iff {clause : Clause} {access : MemoryAccess} {number : Float}
    (compares : clause.ComparesReal access number) (ram : Ram) (fits : access.Fits ram.size)
    (desired : Bool) (possible : clause.CanBe access desired) (history : History) :
    clause.outcome ((history.advance
      (.readable (ram.write (Solver.solve clause desired)))).read access 0) = desired ↔
        access.Attains (clause.wanted desired) (worth number) := by
  have reads : (history.advance
      (.readable (ram.write (Solver.solve clause desired)))).read access 0 =
        access.valueOf ((ram.write (Solver.solve clause desired)).contents access) :=
    History.read_live compares.live rfl
  rw [reads]
  cases encoding : access.encoding with
  | real format order =>
      rw [compares.outcome_iff, compares.place_of_solved encoding ram fits, MemoryAccess.Attains,
        encoding]
      -- What an operand can equal its format keeps, so that equality needs no condition.
      refine ⟨Or.inr, fun attained => attained.elim (fun equal => ?_) id⟩
      rw [equal]
      exact compares.kept_of_can_be encoding possible equal
  | bit index =>
      rw [MemoryAccess.Attains, encoding]
      exact iff_of_true (compares.solved_bit encoding ram fits possible) trivial
  | lowNibble | highNibble | byte | bitCount | word16 | word24 | word32 | untagged =>
      have attains : access.Attains (clause.wanted desired) (worth number) =
          (clause.wanted desired).SparesFraction access.modifiers.invert (worth number) := by
        rw [MemoryAccess.Attains, encoding]
      rw [attains]
      exact compares.solved_integer_iff (by rw [encoding]; rfl) (by rw [encoding]; rfl) ram fits
        possible

/-- A fraction on the left of a byte. -/
def belowByte : Clause where
  flag := .plain
  left := .constant (.real 5.5)
  comparison := .lt
  right := .memory ⟨.byte, 1, {}⟩
  target := 0

theorem next_whole_number_is_written :
    Solver.solve belowByte true = [⟨1, 6, 255⟩] ∧
    belowByte.outcome (((History.zeroed 8).advance
      (.readable ((Ram.zeroed 8).write (Solver.solve belowByte true)))).read
        ⟨.byte, 1, {}⟩ 0) = true :=
  ⟨by decide, (fraction_is_solved_iff ⟨Or.inr ⟨rfl, rfl⟩, by decide, rfl, by simp⟩
    (Ram.zeroed 8) (by decide) true ⟨[6], ⟨rfl, by decide⟩, by decide⟩ _).mpr trivial⟩

/-- A byte that has to reach a fraction. -/
def reachingFraction : Clause where
  flag := .plain
  left := .memory ⟨.byte, 1, {}⟩
  comparison := .ge
  right := .constant (.real 5.5)
  target := 0

/-- The byte 6 is on the right side, but the fraction is cut off and 5 is written. -/
theorem fraction_is_cut_off :
    reachingFraction.CanBe ⟨.byte, 1, {}⟩ true ∧
    Solver.solve reachingFraction true = [⟨1, 5, 255⟩] ∧
    reachingFraction.outcome (((History.zeroed 8).advance
      (.readable ((Ram.zeroed 8).write (Solver.solve reachingFraction true)))).read
        ⟨.byte, 1, {}⟩ 0) = false :=
  ⟨⟨[6], ⟨rfl, by decide⟩, by decide⟩, by decide, by decide +kernel⟩

end Clause

end Achievements
