import Achievements.Proofs.Progress.Passages

/-!
# Chains that count alike

A chain holds or not whatever the targets of its members are, and then it counts by one member with
one target. So two chains with the same clauses but for their targets do the same to a visit if
these two members have the same target and counter: `Visit.next_of_counts_like`. What is left
behind of them still counts alike when triggers are settled in the end.
-/

set_option autoImplicit false

namespace Achievements

namespace Clause

/-- The clause with another target. -/
def withTarget (target : UInt32) (clause : Clause) : Clause :=
  { clause with target }

def untargeted (clause : Clause) : Clause :=
  clause.withTarget 0

def hasTarget (clause : Clause) : Bool :=
  0 < clause.target

end Clause

theorem Sight.all_hold_untargeted (sight : Sight) (clauses : List Clause)
    (accumulated : Accumulated) :
    sight.allHold (clauses.map Clause.untargeted) accumulated =
      sight.allHold clauses accumulated := by
  rw [allHold, allHold, List.any_map, List.any_map, List.all_map]
  rfl

namespace Condition

/-- The same counter with the same target, perhaps of another clause. -/
structure CountsLike (first second : Condition) : Prop where
  target : first.clause.target = second.clause.target
  counter : first.counter = second.counter

theorem CountsLike.accrue {first second : Condition} (like : first.CountsLike second)
    (truth : Bool) : (first.accrue truth).CountsLike (second.accrue truth) where
  target := like.target
  counter := by
    rw [Condition.accrue, Condition.accrue, like.target, like.counter]

end Condition

theorem Visited.settle_put_off (postponed : Postponed) (condition : Condition) (sight : Sight) :
    ((Visited.unmarked condition).putOff postponed).settle sight =
      condition.accrue (sight.allHold postponed.clauses postponed.accumulated) :=
  rfl

namespace Group

/-- The same clauses but for their targets, and members that count alike. -/
structure CountsLike (first second : Group Condition) : Prop where
  clauses : first.clauses.map Clause.untargeted = second.clauses.map Clause.untargeted
  counting : (first.counting Condition.hasTarget).CountsLike (second.counting Condition.hasTarget)

/-- What was left behind of groups that count alike, and still does. -/
structure StandsLike (first second : Group Visited) : Prop where
  outcomes : ∀ history visit, (first.map (Achievement.outcome history visit)).CountsLike
    (second.map (Achievement.outcome history visit))
  unblocked : ∀ sight, (∀ entry ∈ first.members, entry.blocks sight = false) ↔
    ∀ entry ∈ second.members, entry.blocks sight = false

namespace CountsLike

variable {first second : Group Condition} (like : first.CountsLike second)
include like

theorem last : first.last.clause.flag = second.last.clause.flag :=
  congrArg (fun group : Group Clause => group.last.flag) like.clauses

theorem is_single : first.isSingle Condition.isLink = second.isSingle Condition.isLink := by
  have kept : ∀ group : Group Clause,
      (group.map Clause.untargeted).isSingle (fun clause => clause.flag.isLink) =
        group.isSingle fun clause => clause.flag.isLink := by
    intro group
    rw [isSingle, isSingle, map, List.isEmpty_map]
    rfl
  rw [← is_single_of_clauses, ← is_single_of_clauses, ← kept, like.clauses, kept]

theorem untargeted : (first.members.map (·.clause)).map Clause.untargeted =
    (second.members.map (·.clause)).map Clause.untargeted := by
  rw [← members_of_clauses, ← members_of_clauses, ← members_map, ← members_map, like.clauses]

theorem all_hold (sight : Sight) (accumulated : Accumulated) :
    sight.allHold (first.members.map (·.clause)) accumulated =
      sight.allHold (second.members.map (·.clause)) accumulated := by
  rw [← sight.all_hold_untargeted, like.untargeted, sight.all_hold_untargeted]

theorem is_trigger : first.clauses.isTrigger = second.clauses.isTrigger := by
  change (first.last.clause.flag == _) = (second.last.clause.flag == _)
  rw [like.last]

theorem reset : (first.map Condition.reset).CountsLike (second.map Condition.reset) where
  clauses := by
    have kept : ∀ group : Group Condition, (group.map Condition.reset).clauses = group.clauses :=
      fun group => map_map _ _ group
    rw [kept, kept, like.clauses]
  counting := by
    rw [counting_map, counting_map]
    exact ⟨like.counting.target, rfl⟩

theorem stands_like_of_counted (settles : first.clauses.isTrigger = false) (truth : Bool) :
    (first.counted truth).StandsLike (second.counted truth) where
  outcomes := by
    intro history visit
    refine ⟨?_, ?_⟩
    · rw [clauses_of_outcome, clauses_of_outcome, clauses_counted, clauses_counted, like.clauses]
    · rw [counting_of_outcome, counting_of_outcome, counting_counted, counting_counted,
        Achievement.outcome_of_settled rfl, Achievement.outcome_of_settled rfl]
      exact like.counting.accrue truth
  unblocked := by
    intro sight
    have unblocked : ∀ group : Group Condition, group.clauses.isTrigger = false →
        ∀ entry ∈ (group.counted truth).members, entry.blocks sight = false := by
      intro group settles entry member
      have trigger := (congrArg isTrigger (group.clauses_counted truth)).trans settles
      exact Visited.unblocked_of_none ((deferred_of_counted settles truth).settled trigger entry
        member) sight
    exact iff_of_true (unblocked first settles) (unblocked second (like.is_trigger ▸ settles))

theorem stands_like_of_put_off (trigger : first.clauses.isTrigger = true)
    (accumulated : Accumulated) :
    (first.putOff ⟨first.members.map (·.clause), accumulated⟩).StandsLike
      (second.putOff ⟨second.members.map (·.clause), accumulated⟩) := by
  have settled : ∀ sight,
      (((first.putOff ⟨first.members.map (·.clause), accumulated⟩).counting
        Visited.hasTarget).settle sight).CountsLike
      (((second.putOff ⟨second.members.map (·.clause), accumulated⟩).counting
        Visited.hasTarget).settle sight) := by
    intro sight
    rw [counting_put_off, counting_put_off, Visited.settle_put_off, Visited.settle_put_off,
      like.all_hold]
    exact like.counting.accrue _
  refine ⟨?_, ?_⟩
  · intro history visit
    refine ⟨?_, ?_⟩
    · rw [clauses_of_outcome, clauses_of_outcome, clauses_put_off, clauses_put_off, like.clauses]
    · rw [counting_of_outcome, counting_of_outcome, Achievement.outcome, Achievement.outcome]
      cases visit.allMet with
      | true => exact settled _
      | false =>
          rw [counting_put_off, counting_put_off]
          exact like.counting
  · intro sight
    have deferred := deferred_of_put_off ⟨first.members.map (·.clause), accumulated⟩ trigger
    have deferredToo := deferred_of_put_off ⟨second.members.map (·.clause), accumulated⟩
      (like.is_trigger ▸ trigger)
    rw [deferred.unblocked_iff (by rw [clauses_put_off]; exact trigger),
      deferredToo.unblocked_iff (by rw [clauses_put_off]; exact like.is_trigger ▸ trigger),
      (settled sight).counter]

end CountsLike

end Group

namespace Visit

variable {visit : Visit} {first second : Group Condition}

/-- The visit as if nothing was behind. -/
def ahead (visit : Visit) : Visit :=
  { visit with behind := [] }

theorem ahead_count (history : History) (like : first.CountsLike second)
    (plain : first.last.clause.flag = .plain) :
    (visit.count history first).ahead = (visit.count history second).ahead := by
  have plainToo := like.last.symm.trans plain
  have truth := like.all_hold (visit.sight history) visit.accumulated
  have met := congrArg Counter.met (like.counting.accrue ((visit.sight history).allHold
    (second.members.map (·.clause)) visit.accumulated)).counter
  unfold Group.counting at met
  simp only [ahead, count, plain, plainToo, truth, met]
  rfl

/-- A visit comes by chains that count alike in the same way. -/
theorem next_of_counts_like (history : History) (calm : visit.resetNext = false)
    (like : first.CountsLike second) (chained : first.isSingle Condition.isLink = false)
    (closed : first.last.clause.flag = .plain ∨ first.last.clause.flag = .trigger) :
    ∃ (rest : Visit) (entries others : Group Visited), rest.behind = [] ∧
      next history visit first = some (rest.atop (entries.members.reverse ++ visit.behind)) ∧
      next history visit second = some (rest.atop (others.members.reverse ++ visit.behind)) ∧
      entries.StandsLike others ∧
      entries.map Visited.clause = first.clauses ∧ others.map Visited.clause = second.clauses := by
  have same : { visit with resetNext := false } = visit := by
    rw [← calm]
  have goes : ∀ group : Group Condition, group.isSingle Condition.isLink = false →
      next history visit group = visit.chain history group := by
    intro group chained
    simp only [next, calm, same, Bool.false_eq_true, if_false, chained]
  rw [goes first chained, goes second (like.is_single ▸ chained), chain, chain, ← like.last]
  rcases closed with plain | trigger
  · -- Both count at once, with one truth, so their counters are met alike.
    have settles : first.clauses.isTrigger = false := by
      change (first.last.clause.flag == _) = false
      rw [plain]
      rfl
    let truth := (visit.sight history).allHold (second.members.map (·.clause)) visit.accumulated
    refine ⟨(visit.count history second).ahead, first.counted truth, second.counted truth, rfl, ?_,
      ?_, like.stands_like_of_counted settles truth, first.clauses_counted truth,
      second.clauses_counted truth⟩
    · have behind := visit.behind_count_group history first
      rw [like.all_hold] at behind
      rw [plain, ← ahead_count history like plain, ← behind]
      rfl
    · rw [plain, ← behind_count_group]
      rfl
  · -- Nothing is counted yet, and the targets that are put off with the clauses are never read.
    have triggers : first.clauses.isTrigger = true := beq_iff_eq.mpr trigger
    refine ⟨{ visit with behind := [], accumulated := {} }, _, _, rfl, ?_, ?_,
      like.stands_like_of_put_off triggers visit.accumulated, first.clauses_put_off _,
      second.clauses_put_off _⟩
    · rw [trigger, ← behind_postpone_group]
      rfl
    · rw [trigger, ← behind_postpone_group]
      rfl

end Visit

end Achievements
