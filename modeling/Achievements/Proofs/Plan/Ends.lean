import Achievements.Proofs.Memory.Contents
import Achievements.Proofs.Memory.Microsoft
import Achievements.Proofs.Plan.Alternatives
import Achievements.Proofs.Plan.Frames

/-!
# Formulas without a plan

What is written in the Microsoft format needs a search for an exponent, and the search need not end.
`RealFormat.encode_none_iff` names the doubles for which it does not, and `Plan.build_none_iff` the
formulas that have no plan for that reason, or because their frames cannot be counted. Ramps are never
to blame, since small whole numbers are always encoded, and a formula over integers whose frames can be
counted has its plan on any platform.
-/

set_option autoImplicit false

namespace Achievements

open Ieee

/-! ## Doubles -/

namespace Platform

variable (platform : Platform)

/-- A number for whose exponent a platform searches forever. -/
structure Endless (value : Float) : Prop where
  finite : isFinite value = true
  nonzero : worth value ≠ 0
  never : ∀ pattern, ¬Microsoft.EncodesBy (platform.power (platform.log value + 1))
    (platform.log value + 1) value pattern

section

variable {value : Float} {negative : Bool} {mantissa : ℕ} {exponent : ℤ}
  (number : datum value = .finite negative mantissa exponent) (positive : 0 < mantissa)

include number positive

/-- A search is endless exactly if the power of two that it divides by is zero or infinite. -/
theorem endless_iff : platform.Endless value ↔
    Microsoft.searchEnds (platform.power (platform.log value + 1)) = false := by
  have near := platform.log_near number positive.ne'
  have encodes := fun pattern => Microsoft.encodes_by_iff number pattern positive
    (by omega : _ ≤ platform.log value + 1 + 1) (by omega) (platform.power_eq _)
  simp only [Microsoft.encodeFrom?, number, positive.ne', decide_false, Bool.false_or] at encodes
  cases ends : Microsoft.searchEnds (platform.power (platform.log value + 1)) with
  | true =>
      simp only [ends, if_true] at encodes
      exact iff_of_false (fun endless => endless.never _ ((encodes _).mpr rfl))
        Bool.true_eq_false.mp
  | false =>
      simp only [ends, Bool.false_eq_true, if_false, reduceCtorEq, iff_false] at encodes
      exact iff_of_true
        ⟨Json.finite_of_number number, (worth_eq_zero_iff number).not.mpr positive.ne', encodes⟩ rfl

/-- Numbers that are neither very large nor very small are encoded on any platform. -/
theorem not_endless_of_number (low : -1020 ≤ Microsoft.binaryExponent mantissa exponent)
    (high : Microsoft.binaryExponent mantissa exponent ≤ 1020) : ¬platform.Endless value := by
  have near := platform.log_near number positive.ne'
  have power := (platform.power_eq (platform.log value + 1)).resolve_right fun tiny => by omega
  rw [platform.endless_iff number positive, power, Bool.not_eq_false,
    Microsoft.search_ends_iff (by omega) (by omega)]
  omega

end

/-- Small whole numbers are encoded on any platform. -/
theorem not_endless_of_int {value : ℤ} (small : value.natAbs < 2 ^ 53) :
    ¬platform.Endless (doubleOfInt value) := by
  intro endless
  obtain ⟨mantissa, exponent, number, -, same⟩ := number_of_whole (value < 0) small
  have positive : 0 < mantissa :=
    Nat.pos_of_ne_zero ((worth_eq_zero_iff number).not.mp endless.nonzero)
  have whole : value.natAbs ≠ 0 := by
    have product : (0 : ℚ) < mantissa * 2 ^ exponent := by positivity
    rw [same, Nat.cast_pos] at product
    exact product.ne'
  have log := Microsoft.log_eq_binary_exponent exponent positive
  rw [same, Int.log_natCast] at log
  have below : Nat.log 2 value.natAbs < 53 := Nat.log_lt_of_lt_pow whole small
  exact platform.not_endless_of_number number positive (by omega) (by omega) endless

/-- With exact logarithms, these are the numbers from `2 ^ 1023` on, and those that are so small that
the power of two is the reciprocal of infinity. -/
theorem exact_endless_iff {value : Float} (finite : isFinite value = true)
    (nonzero : worth value ≠ 0) : Platform.exact.Endless value ↔
      2 ^ (1023 : ℤ) ≤ |worth value| ∨ |worth value| < 2 ^ (-1024 : ℤ) := by
  obtain ⟨negative, mantissa, exponent, number⟩ := Json.number_of_finite finite
  have positive : 0 < mantissa := Nat.pos_of_ne_zero ((worth_eq_zero_iff number).not.mp nonzero)
  have reaches (power : ℤ) : (2 : ℚ) ^ power ≤ |worth value| ↔
      power < Microsoft.binaryExponent mantissa exponent := by
    rw [worth_of_number number, abs_signed negative (by positivity),
      ← Microsoft.one_le_share_iff exponent positive, one_le_div (by positivity)]
  have estimate : Platform.exact.log value + 1 = Microsoft.binaryExponent mantissa exponent := by
    simp only [exact, number, sub_add_cancel]
  have bounds := Microsoft.binary_exponent_bounds number positive
  rw [endless_iff _ number positive, estimate, ← not_le, reaches, reaches]
  rcases lt_or_ge (Microsoft.binaryExponent mantissa exponent) (-1023) with tiny | ordinary
  · have zero : Microsoft.searchEnds 0 = false := by decide
    simp only [exact, if_pos tiny, zero, true_iff]
    omega
  · have ends : Microsoft.searchEnds (Microsoft.powerOfTwo
        (Microsoft.binaryExponent mantissa exponent)) = true ↔
          Microsoft.binaryExponent mantissa exponent ≤ 1023 :=
      Microsoft.search_ends_iff (by omega) (by omega)
    simp only [exact, if_neg ordinary.not_gt]
    rw [← Bool.not_eq_true, ends]
    omega

end Platform

theorem RealFormat.encode_none_iff (platform : Platform) (format : RealFormat) (value : Float) :
    format.encode? platform value = none ↔ format = .microsoft ∧ platform.Endless value := by
  cases format with
  | single | doubleTop => simp [encode?]
  | microsoft =>
      simp only [encode?, Microsoft.encodeFrom?, true_and]
      cases number : datum value with
      | nan | infinite =>
          refine iff_of_false (by simp) fun endless => ?_
          obtain ⟨_, _, _, finite⟩ := Json.number_of_finite endless.finite
          cases number.symm.trans finite
      | finite negative mantissa exponent =>
          rcases Nat.eq_zero_or_pos mantissa with rfl | positive
          · exact iff_of_false (by simp) fun endless =>
              endless.nonzero ((worth_eq_zero_iff number).mpr rfl)
          · rw [platform.endless_iff number positive]
            simp [positive.ne']

theorem Encoding.is_encoded_iff (platform : Platform) (encoding : Encoding) (value : Float) :
    encoding.isEncoded platform value = true ↔
      ∀ order, encoding = .real .microsoft order → ¬platform.Endless value := by
  cases encoding with
  | real format order =>
      rw [isEncoded, Option.isSome_iff_ne_none, ne_eq, RealFormat.encode_none_iff]
      simp
  | _ => simp [isEncoded]

/-! ## Comparisons -/

namespace Solver

variable (platform : Platform)

theorem mem_accesses_of_real {clause : Clause} {desired : Bool} {access : MemoryAccess} {value : Float}
    (target : realOf? clause desired = some (access, value)) : access ∈ clause.accesses := by
  rw [realOf?] at target
  cases left : clause.left <;> cases right : clause.right <;>
    simp only [left, right, Option.some.injEq, Prod.mk.injEq, reduceCtorEq] at target <;>
    simp [Clause.accesses, left, right, Operand.memory?, target.1]

/-- A comparison whose target is encoded forever. -/
def NeverSolved (clause : Clause) (desired : Bool) : Prop :=
  ∃ access value order, realOf? clause desired = some (access, value) ∧
    access.encoding = .real .microsoft order ∧ platform.Endless value

theorem is_solved_iff (clause : Clause) (desired : Bool) :
    isSolved platform clause desired = true ↔ ¬NeverSolved platform clause desired := by
  rw [isSolved, NeverSolved]
  cases realOf? clause desired with
  | none => simp
  | some target =>
      rw [Option.all_some, Encoding.is_encoded_iff]
      aesop

theorem undo_modifiers_lt (access : MemoryAccess) (value : Int) :
    undoModifiers access value < 2 ^ 53 := by
  have bound := access.maximum_lt
  have most : largest access ≤ access.encoding.maximum := by
    unfold largest
    split <;> omega
  unfold undoModifiers
  simp only
  split <;> split <;> omega

/-- An integer value is always given to an operand. -/
theorem is_given (access : MemoryAccess) (value : Int) : isGiven platform access value = true :=
  (Encoding.is_encoded_iff _ _ _).mpr fun _ _ =>
    platform.not_endless_of_int (undo_modifiers_lt access value)

end Solver

/-! ## Plans -/

namespace Plan

open Solver

variable (platform : Platform) (clauses : List Clause)

/-- Why there is no plan for a formula: its frames cannot be counted, or something that the plan makes
come out false or true is encoded forever. -/
inductive Stuck : Prop
  | count (checks : platform.checksSums = true)
      (large : 4294967296 ≤ 1 + (rampLengths clauses).foldl (· + ·) 0)
  | neutral {clause : Clause} (member : clause ∈ clauses) (disruptive : clause.flag.isDisruptive)
      (never : NeverSolved platform clause false)
  | required {requirement : Requirement} (member : requirement ∈ requirements clauses)
      (atOnce : requirement.isTrigger ∨ growing? requirement.clause = none)
      (never : NeverSolved platform requirement.clause true)

theorem is_ramped (clause : Clause) (access : MemoryAccess) :
    isRamped platform clause access = true :=
  List.all_eq_true.mpr fun value _ => is_given platform access value

theorem is_solved_iff : isSolved clauses platform = true ↔
    (∀ clause ∈ clauses, clause.flag.isDisruptive → ¬NeverSolved platform clause false) ∧
      ∀ requirement ∈ requirements clauses,
        requirement.isTrigger ∨ growing? requirement.clause = none →
          ¬NeverSolved platform requirement.clause true := by
  have grown : ((requiredRamps clauses).all fun ramp => isRamped platform ramp.1 ramp.2) = true :=
    List.all_eq_true.mpr fun ramp _ => is_ramped platform ramp.1 ramp.2
  have before : (∀ clause ∈ requiredStatics clauses, ¬NeverSolved platform clause true) ↔
      ∀ requirement ∈ requirements clauses, requirement.isTrigger = false →
        growing? requirement.clause = none → ¬NeverSolved platform requirement.clause true := by
    simp only [requiredStatics, requiredBefore, List.forall_mem_filter, List.forall_mem_map,
      Bool.not_eq_true', Option.isNone_iff_eq_none]
  have triggers : (∀ clause ∈ requiredTriggers clauses, ¬NeverSolved platform clause true) ↔
      ∀ requirement ∈ requirements clauses, requirement.isTrigger = true →
        ¬NeverSolved platform requirement.clause true := by
    simp only [requiredTriggers, List.forall_mem_filter, List.forall_mem_map]
  change (_ && (requiredRamps clauses).all (fun ramp => isRamped platform ramp.1 ramp.2) && _) =
    true ↔ _
  rw [grown, Bool.and_true]
  simp only [Bool.and_eq_true, List.all_eq_true, Solver.is_solved_iff, before, triggers,
    List.forall_mem_filter]
  constructor
  · rintro ⟨⟨neutral, static⟩, last⟩
    refine ⟨neutral, fun requirement member atOnce => ?_⟩
    cases trigger : requirement.isTrigger with
    | true => exact last requirement member trigger
    | false =>
        rw [trigger] at atOnce
        exact static requirement member trigger (atOnce.resolve_left Bool.false_ne_true)
  · rintro ⟨neutral, required⟩
    exact ⟨⟨neutral, fun requirement member _ static => required requirement member (.inr static)⟩,
      fun requirement member trigger => required requirement member (.inl trigger)⟩

/-- There is a plan unless something is in its way. -/
theorem build_none_iff : build? clauses platform = none ↔ Stuck platform clauses := by
  have counts : sumsFit clauses = true ↔
      ¬4294967296 ≤ 1 + (rampLengths clauses).foldl (· + ·) 0 := by
    rw [sumsFit, decide_eq_true_iff, not_le]
  have built : build? clauses platform = none ↔ ¬(isSolved clauses platform = true ∧
      (sumsFit clauses = true ∨ platform.checksSums = false)) := by
    simp only [build?, ite_eq_right_iff, reduceCtorEq, imp_false, Bool.and_eq_true, Bool.or_eq_true,
      Bool.not_eq_true']
  rw [built, is_solved_iff, counts]
  constructor
  · intro broken
    by_contra free
    refine broken ⟨⟨fun clause member disruptive never => free (.neutral member disruptive never),
      fun requirement member atOnce never => free (.required member atOnce never)⟩, ?_⟩
    by_contra counted
    rw [not_or, not_not, Bool.not_eq_false] at counted
    exact free (.count counted.2 counted.1)
  · rintro (⟨checks, large⟩ | ⟨member, disruptive, never⟩ | ⟨member, atOnce, never⟩)
      ⟨⟨neutral, required⟩, counted⟩
    · rcases counted with fits | wraps
      · exact fits large
      · exact Bool.false_ne_true (wraps.symm.trans checks)
    · exact neutral _ member disruptive never
    · exact required _ member atOnce never

theorem eq_build_of_some {plan : Plan} (built : build? clauses platform = some plan) :
    plan = build clauses := by
  rw [build?] at built
  split at built <;> cases built
  rfl

theorem chosen_subset (group : Group Clause) : chosen group ⊆ group.members := by
  unfold chosen
  split
  · cases group.members with
    | nil => exact List.nil_subset _
    | cons first rest => exact List.cons_subset.mpr ⟨easiest_mem first rest, List.nil_subset _⟩
  · exact List.Subset.refl _

variable {clauses}

theorem clause_mem_of_requirement {requirement : Requirement}
    (member : requirement ∈ requirements clauses) : requirement.clause ∈ clauses := by
  obtain ⟨group, inGroups, required⟩ := List.mem_flatMap.mp member
  rw [requirementsOf] at required
  split at required
  · obtain ⟨clause, isChosen, rfl⟩ := List.mem_map.mp required
    rw [← Group.flatMap_members_split (fun clause : Clause => clause.flag.isLink) clauses]
    exact List.mem_flatMap.mpr ⟨group, inGroups, chosen_subset group isChosen⟩
  · cases required

/-- A formula over integers has a plan on any platform, if its frames can be counted. -/
theorem build_of_integers
    (integers : ∀ clause ∈ clauses, ∀ access ∈ clause.accesses, access.encoding.isReal = false)
    (fits : sumsFit clauses = true) : build? clauses platform = some (build clauses) := by
  have solved (clause : Clause) (member : clause ∈ clauses) (desired : Bool) :
      ¬NeverSolved platform clause desired := by
    rintro ⟨access, value, order, target, microsoft, -⟩
    have integer := integers clause member access (Solver.mem_accesses_of_real target)
    rw [microsoft] at integer
    cases integer
  have ends := (is_solved_iff platform clauses).mpr
    ⟨fun clause member _ => solved clause member false,
      fun requirement member _ => solved _ (clause_mem_of_requirement member) true⟩
  rw [build?, ends, fits]
  rfl

end Plan

theorem Clause.Planned.integer {clause : Clause} (planned : clause.Planned) {access : MemoryAccess}
    (own : access ∈ clause.accesses) : access.encoding.isReal = false := by
  cases planned with
  | static given number compares _ =>
      rcases compares.sides with ⟨left, right⟩ | ⟨left, right⟩ <;>
        simp only [Clause.accesses, left, right, Operand.memory?, Option.toList_some,
          Option.toList_none, List.append_nil, List.nil_append, List.mem_singleton] at own <;>
        exact own ▸ compares.integer
  | growing given past grows _ =>
      simp only [Clause.accesses, grows.left, grows.right, Operand.memory?, Option.toList_some,
        List.singleton_append, List.mem_cons, List.not_mem_nil, or_false] at own
      rcases own with rfl | rfl <;> exact grows.integer

/-- A formula that a plan can unlock clause by clause has that plan on any platform. -/
theorem Plannable.has_plan {size : Nat} {clauses : List Clause} (plannable : Plannable size clauses)
    (platform : Platform) : Plan.build? clauses platform = some (Plan.build clauses) :=
  Plan.build_of_integers platform
    (fun clause member _ own => (plannable.planned clause member).integer own) plannable.sums

end Achievements
