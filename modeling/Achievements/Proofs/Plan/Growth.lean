import Achievements.Proofs.Plan.Layout

/-!
# Values that grow

A clause that is met by growing compares an integer operand with its own past. Compared with its
change, or with a value two frames old, it comes out as the integers held on these frames make it.
-/

set_option autoImplicit false

namespace Achievements

namespace Clause

/-- A clause that is met when an integer operand grows: it compares the operand with its change, or
with its value two frames ago. That value only stays behind until the maximum is reached. -/
structure Grows (clause : Clause) (access : MemoryAccess) (past : Modifiers) : Prop where
  comparison : clause.comparison ∈ [.gt, .ne, .ge]
  left : clause.left = .memory access
  right : clause.right = .memory { access with modifiers := past }
  unmodified : access.modifiers = {}
  integer : access.encoding.isReal = false
  aged : past ∈ [{ delta := true }, { prior := true }, { delta := true, prior := true }]
  attainable : past = { prior := true } → clause.comparison ∈ [.gt, .ne] →
    clause.target.toNat ≤ access.encoding.maximum + 1

/-- A clause that a plan can make come out as its flag asks. -/
inductive Planned (clause : Clause) : Prop
  | static (access : MemoryAccess) (number : Int64)
      (compares : clause.ComparesInteger access number)
      (possible : clause.CanBe access (!clause.flag.isDisruptive))
  | growing (access : MemoryAccess) (past : Modifiers) (grows : clause.Grows access past)
      (counted : clause.flag.isCounted = true)

theorem ComparesInteger.not_growing {clause : Clause} {access : MemoryAccess} {number : Int64}
    (compares : clause.ComparesInteger access number) : Plan.growing? clause = none := by
  rcases compares.sides with ⟨left, right⟩ | ⟨left, right⟩ <;> simp [Plan.growing?, left, right]

namespace Grows

variable {clause : Clause} {access : MemoryAccess} {past : Modifiers}

theorem mem_accesses (grows : clause.Grows access past) : access ∈ clause.accesses := by
  simp [accesses, grows.left, Operand.memory?]

theorem aged_cases (grows : clause.Grows access past) :
    past = { delta := true } ∨ past = { prior := true } ∨
      past = { delta := true, prior := true } := by
  have member := grows.aged
  simpa only [List.mem_cons, List.not_mem_nil, or_false] using member

theorem growing_eq (grows : clause.Grows access past) : Plan.growing? clause = some access := by
  have live : access.isLive = true := by rw [MemoryAccess.isLive, grows.unmodified]; rfl
  have aged : MemoryAccess.isLive { access with modifiers := past } = false := by
    rcases grows.aged_cases with rfl | rfl | rfl <;> rfl
  have member := grows.comparison
  cases same : clause.comparison <;> rw [same] at member <;>
    first
      | exact absurd member (by decide)
      | simp [Plan.growing?, grows.left, grows.right, same, live, aged, MemoryAccess.samePlace]

theorem compares_prior_eq (grows : clause.Grows access past) :
    Plan.comparesPrior clause = (past.prior && !past.delta) := by
  rw [Plan.comparesPrior, grows.right]
  rfl

theorem range_eq (grows : clause.Grows access past) :
    Solver.range access = (0, (access.encoding.maximum : Int)) := by
  simp [Solver.range, Solver.largest, Solver.holdsDecimalDigits, grows.unmodified]

/-- A written value up to the maximum is held. -/
theorem held_of_writes (grows : clause.Grows access past) (ram : Ram) (fits : access.Fits ram.size)
    (value : Nat) (small : value ≤ access.encoding.maximum) :
    access.encoding.readInteger
      ((ram.write (Solver.writesOfValue access value)).contents access) = value := by
  have range := grows.range_eq
  have held : access.integerOf
      ((ram.write (Solver.writesOfValue access value)).contents access) = value :=
    Solver.integer_of_writes ram grows.integer fits
      (by rw [range]; exact Int.natCast_nonneg value) (by rw [range]; exact Int.ofNat_le.mpr small)
  rw [MemoryAccess.integerOf, grows.unmodified] at held
  exact Int.ofNat_inj.mp held

theorem read_present (grows : clause.Grows access past) {history : History} {ram : Ram}
    (now : history.now = ram.bytes) : history.read access 0 =
      .int (Int64.ofNat (access.encoding.readInteger (ram.contents access))) := by
  have live : access.isLive = true := by rw [MemoryAccess.isLive, grows.unmodified]; rfl
  rw [History.read_live live now, MemoryAccess.valueOf, if_neg (by simp [grows.integer]),
    grows.unmodified]
  rfl

/-- Against its change, the clause compares the integer held now with how much that is more than the
one before. -/
theorem holds_on_change (grows : clause.Grows access past) (delta : past.delta = true)
    {history : History} {ram old : Ram} (now : history.now = ram.bytes)
    (prev : history.prev = old.bytes) :
    clause.holdsOn history = clause.comparison.relates
      (access.encoding.readInteger (ram.contents access))
      ((access.encoding.readInteger (ram.contents access) : Int) -
        access.encoding.readInteger (old.contents access)) := by
  have present := grows.read_present now
  have plain : past.bcd = false ∧ past.invert = false := by
    rcases grows.aged_cases with rfl | rfl | rfl <;> exact ⟨rfl, rfl⟩
  have change := History.read_change grows.integer delta plain.1 plain.2 now prev
  have presentSmall := access.read_integer_lt grows.integer (ram.length_contents access)
  have oldSmall := access.read_integer_lt grows.integer (old.length_contents access)
  generalize access.encoding.readInteger (ram.contents access) = value
    at present change presentSmall ⊢
  generalize access.encoding.readInteger (old.contents access) = before at change oldSmall ⊢
  have unmoved : Number.int (Int64.ofNat value) + Number.zero = .int (Int64.ofNat value) :=
    congrArg Number.int (Int64.add_zero _)
  have held : (Int64.ofNat value).toInt = value := Int64.toInt_ofNat_of_lt (by omega)
  have heldBefore : (Int64.ofNat before).toInt = before := Int64.toInt_ofNat_of_lt (by omega)
  have difference : (Int64.ofNat value - Int64.ofNat before).toInt = (value : Int) - before := by
    rw [History.to_int_difference (by omega) (by omega), held, heldBefore]
  simp only [holdsOn, Sight.holdsAlone, Sight.holds, Sight.left, Sight.value, grows.left,
    grows.right, present, change, unmoved, Comparison.holds_compare_int, difference, held]

/-- A value is more than its change, or no less if nothing was held before. -/
theorem relates_change (grows : clause.Grows access past) (value before : Nat) :
    clause.comparison.relates value ((value : Int) - before) = true ↔
      clause.comparison = .ge ∨ 0 < before := by
  have member := grows.comparison
  cases same : clause.comparison <;> rw [same] at member <;>
    first
      | exact absurd member (by decide)
      | simp only [Comparison.relates, decide_eq_true_eq, reduceCtorEq, false_or, true_or, iff_true]
        omega

/-- An operand that held more than zero one frame ago differs from its change by more than zero. -/
theorem holds_of_change (grows : clause.Grows access past) (delta : past.delta = true)
    {history : History} {ram old : Ram} (now : history.now = ram.bytes)
    (prev : history.prev = old.bytes)
    (positive : 1 ≤ access.encoding.readInteger (old.contents access)) :
    clause.holdsOn history = true := by
  rw [grows.holds_on_change delta now prev]
  exact (grows.relates_change _ _).mpr (Or.inr positive)

/-- Against a value two frames old, the clause compares the integers held now and then. -/
theorem holds_of_prior (grows : clause.Grows access { prior := true }) {history : History}
    {ram old : Ram} (now : history.now = ram.bytes) (prior : history.prior = old.bytes) :
    clause.holdsOn history = clause.comparison.relates
      (access.encoding.readInteger (ram.contents access))
      (access.encoding.readInteger (old.contents access)) := by
  have present := grows.read_present now
  have aged := History.read_prior grows.integer prior
  have presentSmall := access.read_integer_lt grows.integer (ram.length_contents access)
  have oldSmall := access.read_integer_lt grows.integer (old.length_contents access)
  generalize access.encoding.readInteger (ram.contents access) = value at present presentSmall ⊢
  generalize access.encoding.readInteger (old.contents access) = before at aged oldSmall ⊢
  have unmoved : Number.int (Int64.ofNat value) + Number.zero = .int (Int64.ofNat value) :=
    congrArg Number.int (Int64.add_zero _)
  simp only [holdsOn, Sight.holdsAlone, Sight.holds, Sight.left, Sight.value, grows.left,
    grows.right, present, aged, unmoved, Comparison.holds_compare_int]
  rw [Int64.toInt_ofNat_of_lt (by omega), Int64.toInt_ofNat_of_lt (by omega)]

end Grows

end Clause

end Achievements
