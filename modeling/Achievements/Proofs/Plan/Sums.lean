import Achievements.Plan.Build
import Mathlib.Algebra.Order.BigOperators.Group.List
import Mathlib.Algebra.Order.Group.Nat

/-!
# Sums of frames

A plan counts the frames of its ramps with 32 bits, so its sums are those of natural numbers up to
multiples of `2 ^ 32`. As long as all of them together fit, nothing is lost: `Plan.ramp_count_of_fits`
says so of each ramp, and `Plan.ramp_total_of_fits` of the sum that the holding frames depend on.
-/

set_option autoImplicit false

namespace Achievements.Plan

/-- Sums of 32 bits are sums of natural numbers, of which 32 bits are kept. -/
theorem foldl_add_of_nat (lengths : List Nat) (start : Nat) :
    (lengths.map UInt32.ofNat).foldl (· + ·) (UInt32.ofNat start) =
      UInt32.ofNat (lengths.foldl (· + ·) start) := by
  induction lengths generalizing start with
  | nil => rfl
  | cons length lengths ih =>
      rw [List.map_cons, List.foldl_cons, List.foldl_cons, ← UInt32.ofNat_add, ih]

theorem settling_le (clause : Clause) : settling clause ≤ 1 := by
  unfold settling
  split <;> decide

theorem ramp_count_eq (clause : Clause) : rampCount clause = UInt32.ofNat (rampLength clause) := by
  have larger : (max clause.target 1).toNat = max clause.target.toNat 1 := by
    rw [UInt32.toNat_max]
    rfl
  rw [rampCount, rampLength, UInt32.ofNat_add, ← larger, UInt32.ofNat_toNat]

theorem ramp_total_eq (clauses : List Clause) :
    rampTotal clauses = UInt32.ofNat ((rampLengths clauses).foldl (· + ·) 0) := by
  have counts : (requiredRamps clauses).map (fun ramp => rampCount ramp.1) =
      (rampLengths clauses).map UInt32.ofNat := by
    rw [rampLengths, List.map_map]
    exact List.map_congr_left fun grown _ => ramp_count_eq grown.1
  change ((requiredRamps clauses).map fun ramp => rampCount ramp.1).foldl (· + ·) 0 = _
  rw [counts]
  exact foldl_add_of_nat (rampLengths clauses) 0

variable {clauses : List Clause} (fits : sumsFit clauses = true)

include fits

theorem ramp_lengths_fit : 1 + (rampLengths clauses).foldl (· + ·) 0 < 2 ^ 32 :=
  of_decide_eq_true fits

theorem ramp_count_of_fits {clause : Clause} {access : MemoryAccess}
    (member : (clause, access) ∈ requiredRamps clauses) :
    (rampCount clause).toNat = rampLength clause := by
  have part : rampLength clause ≤ (rampLengths clauses).foldl (· + ·) 0 := by
    rw [← List.sum_eq_foldl_nat]
    exact List.le_sum_of_mem (List.mem_map.mpr ⟨(clause, access), member, rfl⟩)
  have small : rampLength clause < 2 ^ 32 :=
    (part.trans (Nat.le_add_left _ 1)).trans_lt (ramp_lengths_fit fits)
  rw [ramp_count_eq, UInt32.toNat_ofNat_of_lt' small]

theorem ramp_total_of_fits :
    (1 + rampTotal clauses).toNat = 1 + (rampLengths clauses).foldl (· + ·) 0 := by
  have one : (1 : UInt32) = UInt32.ofNat 1 := rfl
  rw [ramp_total_eq, one, ← UInt32.ofNat_add]
  exact UInt32.toNat_ofNat_of_lt' (ramp_lengths_fit fits)

end Achievements.Plan
