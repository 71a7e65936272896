import Achievements.Proofs.Progress.Groups
import Achievements.Proofs.Progress.Interruptions

/-!
# The verdict as it is recorded

Whether an achievement is primed or unlocks is gathered while its counters are still being changed.
As long as no clause adds or takes off hits, nothing that comes later in the frame touches a
counter that was looked at: `Achievement.verdict_is_recorded` reads the verdict off the counters
that the frame leaves. The proof goes by the groups that a visit leaves behind, which are those of
the formula.
-/

set_option autoImplicit false

namespace Achievements

namespace Group

/-- Is a group counted before the triggers are? -/
def contributes (group : Group Clause) : Bool :=
  match group.last.flag with
  | .plain | .measured | .measuredPercent => true
  | .trigger | .pauseIf | .measuredIf | .resetIf | .resetNextIf => false
  | .addSource | .subSource | .addAddress | .addHits | .subHits | .remember | .andNext | .orNext =>
      !group.isSingle fun clause => clause.flag.isLink

/-- Is a group put off until everything else is met? -/
def isTrigger (group : Group Clause) : Bool :=
  group.last.flag == .trigger

end Group

/-- Does a clause change the hits of its neighbour? -/
def Flag.adjusts : Flag → Bool
  | .addHits | .subHits => true
  | _ => false

namespace Visited

def clause (visited : Visited) : Clause :=
  visited.condition.clause

def hasTarget (visited : Visited) : Bool :=
  visited.condition.hasTarget

theorem clause_settle (sight : Sight) (visited : Visited) :
    (visited.settle sight).clause = visited.clause := by
  unfold settle
  split <;> rfl

theorem settle_of_none {visited : Visited} (none : visited.postponed = none) (sight : Sight) :
    visited.settle sight = visited.condition := by
  rw [settle, none]

theorem unblocked_of_none {visited : Visited} (none : visited.postponed = none) (sight : Sight) :
    visited.blocks sight = false := by
  rw [blocks, none]
  rfl

end Visited

/-- What a visit leaves behind of a group: something is put off exactly for the member that counts
for a trigger. -/
structure Group.Deferred (group : Group Visited) : Prop where
  settled : (group.map Visited.clause).isTrigger = false →
    ∀ entry ∈ group.members, entry.postponed = none
  unblocked_iff : (group.map Visited.clause).isTrigger = true → ∀ sight,
    (∀ entry ∈ group.members, entry.blocks sight = false) ↔
      ((group.counting Visited.hasTarget).settle sight).counter.met = true

namespace Group

/-- What is left behind of a group that was counted. -/
def counted (truth : Bool) (group : Group Condition) : Group Visited :=
  (group.modify (group.countingIndex Condition.hasTarget) (Condition.accrue truth)).map
    Visited.unmarked

/-- What is left behind of a group that was put off. -/
def putOff (postponed : Postponed) (group : Group Condition) : Group Visited :=
  (group.map Visited.unmarked).modify (group.countingIndex Condition.hasTarget)
    (Visited.putOff postponed)

theorem clauses_unmarked (group : Group Condition) :
    (group.map Visited.unmarked).map Visited.clause = group.clauses :=
  map_map _ _ _

theorem clauses_counted (truth : Bool) (group : Group Condition) :
    (group.counted truth).map Visited.clause = group.clauses := by
  rw [counted, clauses_unmarked]
  exact map_modify Condition.clause (Condition.accrue truth) (fun _ => rfl) _ group

theorem clauses_put_off (postponed : Postponed) (group : Group Condition) :
    (group.putOff postponed).map Visited.clause = group.clauses := by
  rw [putOff, map_modify Visited.clause (Visited.putOff postponed) fun _ => rfl, clauses_unmarked]

theorem counting_counted (truth : Bool) (group : Group Condition) :
    (group.counted truth).counting Visited.hasTarget =
      Visited.unmarked ((group.counting Condition.hasTarget).accrue truth) := by
  have place := counting_index_modify Condition.hasTarget (Condition.accrue truth) (fun _ => rfl)
    (group.countingIndex Condition.hasTarget) group
  rw [counted, counting_map]
  change Visited.unmarked (counting Condition.hasTarget _) = _
  rw [counting, place, member_at_modify, counting]

theorem counting_put_off (postponed : Postponed) (group : Group Condition) :
    (group.putOff postponed).counting Visited.hasTarget =
      Visited.putOff postponed (Visited.unmarked (group.counting Condition.hasTarget)) := by
  have place : (group.putOff postponed).countingIndex Visited.hasTarget =
      group.countingIndex Condition.hasTarget := by
    rw [putOff, counting_index_modify Visited.hasTarget (Visited.putOff postponed) fun _ => rfl,
      counting_index_map]
    rfl
  rw [counting, place, putOff, member_at_modify, member_at_map, counting]

theorem deferred_of_conditions {group : Group Condition}
    (settles : group.clauses.isTrigger = false) : Deferred (group.map Visited.unmarked) where
  settled := by
    intro _ entry member
    rw [members_map, List.mem_map] at member
    obtain ⟨condition, _, rfl⟩ := member
    rfl
  unblocked_iff := by
    intro trigger
    rw [clauses_unmarked] at trigger
    exact absurd (trigger.symm.trans settles) Bool.true_eq_false.mp

theorem deferred_of_counted {group : Group Condition} (settles : group.clauses.isTrigger = false)
    (truth : Bool) : Deferred (group.counted truth) := by
  have clauses := group.clauses_counted truth
  rw [counted, clauses_unmarked] at clauses
  exact deferred_of_conditions (clauses ▸ settles)

theorem deferred_of_put_off {group : Group Condition} (postponed : Postponed)
    (trigger : group.clauses.isTrigger = true) : Deferred (group.putOff postponed) where
  settled := by
    intro settles
    rw [clauses_put_off] at settles
    exact absurd (trigger.symm.trans settles) Bool.true_eq_false.mp
  unblocked_iff := by
    intro _ sight
    have below : group.countingIndex Condition.hasTarget <
        (group.map Visited.unmarked).members.length := by
      rw [members_map, List.length_map]
      exact group.counting_index_lt _
    -- Nothing else is put off, so nothing else can block.
    have others : ∀ entry ∈ (group.map Visited.unmarked).members, entry.blocks sight = false := by
      intro entry member
      rw [members_map, List.mem_map] at member
      obtain ⟨condition, _, rfl⟩ := member
      rfl
    rw [counting_put_off, putOff, forall_modify_iff _ below others, member_at_map]
    exact Bool.not_eq_false' _ ▸ Iff.rfl

end Group

namespace Visit

/-- What a group adds to a visit, given what is left behind of it. -/
structure GoesPast (visit after : Visit) (entries : Group Visited) : Prop where
  behind : after.behind = entries.members.reverse ++ visit.behind
  allMet : after.allMet = (visit.allMet && (!(entries.map Visited.clause).contributes ||
    (entries.counting Visited.hasTarget).condition.counter.met))
  deferred : entries.Deferred

variable {visit after : Visit} {history : History}

theorem goes_past_of_left {group : Group Condition} (idle : group.clauses.contributes = false)
    (settles : group.clauses.isTrigger = false)
    (behind : after.behind = (visit.leave group.members).behind)
    (allMet : after.allMet = visit.allMet) :
    ∃ entries : Group Visited, entries.map Visited.clause = group.clauses ∧
      visit.GoesPast after entries := by
  refine ⟨group.map Visited.unmarked, group.clauses_unmarked, ?_, ?_,
    Group.deferred_of_conditions settles⟩
  · rw [behind, Group.members_map]
    rfl
  · rw [allMet, group.clauses_unmarked, idle]
    exact (Bool.and_true _).symm

theorem behind_postpone_group (visit : Visit) (group : Group Condition) :
    (visit.postpone group.members (group.countingIndex Condition.hasTarget)).behind =
      (group.putOff ⟨group.members.map (·.clause), visit.accumulated⟩).members.reverse ++
        visit.behind := by
  have below : group.countingIndex Condition.hasTarget <
      (group.map Visited.unmarked).members.length := by
    rw [Group.members_map, List.length_map]
    exact group.counting_index_lt _
  rw [behind_postpone, Group.putOff, Group.members_modify _ below, Group.members_map]

theorem behind_count_group (visit : Visit) (history : History) (group : Group Condition) :
    (visit.count history group).behind = (group.counted ((visit.sight history).allHold
      (group.members.map (·.clause)) visit.accumulated)).members.reverse ++ visit.behind := by
  rw [behind_count, Group.counted, Group.members_map,
    Group.members_modify _ (group.counting_index_lt _)]

theorem goes_past_of_postponed {group : Group Condition}
    (trigger : group.clauses.isTrigger = true) :
    ∃ entries : Group Visited, entries.map Visited.clause = group.clauses ∧
      visit.GoesPast (visit.postpone group.members (group.countingIndex Condition.hasTarget))
        entries := by
  have idle : group.clauses.contributes = false := by
    rw [Group.isTrigger, beq_iff_eq] at trigger
    rw [Group.contributes, trigger]
  refine ⟨_, group.clauses_put_off _, visit.behind_postpone_group group, ?_,
    Group.deferred_of_put_off _ trigger⟩
  rw [group.clauses_put_off, idle]
  exact (Bool.and_true _).symm

theorem goes_past_of_counted {group : Group Condition} (counts : group.clauses.contributes = true) :
    ∃ entries : Group Visited, entries.map Visited.clause = group.clauses ∧
      visit.GoesPast (visit.count history group) entries := by
  have settles : group.clauses.isTrigger = false := by
    rw [Group.isTrigger, beq_eq_false_iff_ne]
    intro trigger
    rw [Group.contributes, trigger] at counts
    cases counts
  refine ⟨_, group.clauses_counted _, visit.behind_count_group history group, ?_,
    Group.deferred_of_counted settles _⟩
  rw [group.clauses_counted, counts, group.counting_counted]
  rfl

/-- A clause outside any chain. -/
theorem goes_past_of_single {condition : Condition} (unlinked : condition.isLink = false)
    (unadjusted : condition.clause.flag.adjusts = false)
    (visited : visit.single history condition = some after) :
    ∃ entries : Group Visited, entries.map Visited.clause = Group.clauses ⟨[], condition⟩ ∧
      visit.GoesPast after entries := by
  have alone :
      (Group.clauses ⟨[], condition⟩).isSingle (fun clause => clause.flag.isLink) = true := by
    rw [Group.is_single_of_clauses, Group.isSingle, unlinked]
    rfl
  have flagOf : (Group.clauses ⟨[], condition⟩).last.flag = condition.clause.flag := rfl
  have contributes := Group.contributes.eq_def (Group.clauses ⟨[], condition⟩)
  rw [alone, flagOf] at contributes
  have trigger : (Group.clauses ⟨[], condition⟩).isTrigger = (condition.clause.flag == .trigger) :=
    rfl
  unfold Condition.isLink at unlinked
  unfold single at visited
  cases flag : condition.clause.flag <;>
    simp only [flag, Bool.not_true] at visited contributes trigger unlinked unadjusted
  case pauseIf | measuredIf | resetNextIf | remember | addSource | subSource | addAddress =>
    cases visited
    exact goes_past_of_left contributes trigger rfl rfl
  case resetIf =>
    split at visited
    · cases visited
    · cases visited
      exact goes_past_of_left contributes trigger rfl rfl
  case trigger =>
    cases visited
    rw [← counting_index_single condition]
    exact goes_past_of_postponed trigger
  case plain | measured | measuredPercent =>
    cases visited
    exact goes_past_of_counted contributes
  case addHits | subHits => cases unadjusted
  case andNext | orNext => cases unlinked

theorem goes_past_of_chain {group : Group Condition}
    (chained : group.isSingle Condition.isLink = false)
    (visited : visit.chain history group = some after) :
    ∃ entries : Group Visited, entries.map Visited.clause = group.clauses ∧
      visit.GoesPast after entries := by
  have flagOf : group.clauses.last.flag = group.last.clause.flag := rfl
  have contributes := Group.contributes.eq_def group.clauses
  rw [Group.is_single_of_clauses, chained, flagOf] at contributes
  have trigger : group.clauses.isTrigger = (group.last.clause.flag == .trigger) := rfl
  unfold chain at visited
  cases flag : group.last.clause.flag <;>
    simp only [flag, Bool.not_false] at visited contributes trigger
  case pauseIf | measuredIf | resetNextIf =>
    cases visited
    exact goes_past_of_left contributes trigger rfl rfl
  case resetIf =>
    split at visited
    · cases visited
    · cases visited
      exact goes_past_of_left contributes trigger rfl rfl
  case trigger =>
    cases visited
    exact goes_past_of_postponed trigger
  all_goals
    cases visited
    exact goes_past_of_counted contributes

theorem goes_past_of_next {group : Group Condition}
    (unadjusted : group.last.clause.flag.adjusts = false)
    (visited : next history visit group = some after) :
    ∃ entries : Group Visited, entries.map Visited.clause = group.clauses ∧
      visit.GoesPast after entries := by
  obtain ⟨moved, kind, visited⟩ := next_cases visited
  have same : moved.clauses = group.clauses := by
    rcases kind with rfl | rfl
    · rfl
    · exact clauses_of_reset_first group
  have last : moved.last.clause = group.last.clause := congrArg Group.last same
  rw [← last] at unadjusted
  rw [← same]
  rcases visited with ⟨condition, rfl, unlinked, single⟩ | ⟨chained, chain⟩
  · obtain ⟨entries, clauses, past⟩ := goes_past_of_single unlinked unadjusted single
    exact ⟨entries, clauses, past.behind, past.allMet, past.deferred⟩
  · obtain ⟨entries, clauses, past⟩ := goes_past_of_chain chained chain
    exact ⟨entries, clauses, past.behind, past.allMet, past.deferred⟩

/-- What a visit leaves behind of some groups. -/
structure HasPassed (visit after : Visit) (passed : List (Group Visited)) : Prop where
  behind : after.behind = (passed.flatMap Group.members).reverse ++ visit.behind
  allMet : after.allMet = true ↔ visit.allMet = true ∧
    ∀ entries ∈ passed, (entries.map Visited.clause).contributes = true →
      (entries.counting Visited.hasTarget).condition.counter.met = true
  deferred : ∀ entries ∈ passed, entries.Deferred

/-- By induction on the groups, a visit records of each of them what it has added. -/
theorem has_passed_of_fold (groups : List (Group Condition))
    (unadjusted : ∀ group ∈ groups, group.last.clause.flag.adjusts = false)
    (visited : groups.foldlM (next history) visit = some after) :
    ∃ passed : List (Group Visited),
      passed.map (Group.map Visited.clause) = groups.map Group.clauses ∧
      visit.HasPassed after passed := by
  induction groups generalizing visit with
  | nil =>
      cases visited
      exact ⟨[], rfl, rfl, by simp, by simp⟩
  | cons group groups ih =>
      rw [List.forall_mem_cons] at unadjusted
      rw [List.foldlM_cons, Option.bind_eq_bind, Option.bind_eq_some_iff] at visited
      obtain ⟨between, first, rest⟩ := visited
      obtain ⟨entries, clauses, past⟩ := goes_past_of_next unadjusted.1 first
      obtain ⟨passed, allClauses, later⟩ := ih unadjusted.2 rest
      refine ⟨entries :: passed, ?_, ?_, ?_, ?_⟩
      · rw [List.map_cons, List.map_cons, clauses, allClauses]
      · rw [later.behind, past.behind, List.flatMap_cons, List.reverse_append, List.append_assoc]
      · rw [later.allMet, past.allMet, Bool.and_eq_true, Bool.or_eq_true, Bool.not_eq_true',
          List.forall_mem_cons, and_assoc, ← Bool.not_eq_true, ← imp_iff_not_or]
      · exact List.forall_mem_cons.mpr ⟨past.deferred, later.deferred⟩

end Visit

namespace Achievement

variable {history : History} {achievement : Achievement}

theorem has_passed_of_all
    (unadjusted : ∀ clause ∈ achievement.clauses, clause.flag.adjusts = false) {visit : Visit}
    (visited : Visit.all history achievement = some visit) :
    ∃ passed : List (Group Visited),
      passed.map (Group.map Visited.clause) =
        (Group.split Condition.isLink achievement.conditions).map Group.clauses ∧
      Visit.HasPassed { remembered := achievement.remembered } visit passed := by
  apply Visit.has_passed_of_fold _ _ visited
  intro group member
  have last : group.last ∈
      (Group.split Condition.isLink achievement.conditions).flatMap Group.members :=
    List.mem_flatMap.mpr ⟨group, member, List.mem_append_right _ List.mem_cons_self⟩
  rw [Group.flatMap_members_split] at last
  exact unadjusted _ (List.mem_map_of_mem last)

/-- The groups of the conditions that are left are those that were passed. -/
theorem split_of_passed {passed : List (Group Visited)}
    (clauses : passed.map (Group.map Visited.clause) =
      (Group.split Condition.isLink achievement.conditions).map Group.clauses)
    (outcome : Visited → Condition) (keeps : ∀ entry, (outcome entry).clause = entry.clause) :
    Group.split Condition.isLink ((passed.flatMap Group.members).map outcome) =
      passed.map (Group.map outcome) := by
  have looks : (passed.map (Group.map outcome)).map (Group.map Condition.clause) =
      (Group.split Condition.isLink achievement.conditions).map (Group.map Condition.clause) := by
    change _ = (Group.split Condition.isLink achievement.conditions).map Group.clauses
    rw [← clauses, List.map_map]
    apply List.map_congr_left
    intro entries _
    rw [Function.comp_apply, Group.map_map]
    simp only [keeps]
  have members : (passed.flatMap Group.members).map outcome =
      (passed.map (Group.map outcome)).flatMap Group.members := by
    rw [List.map_flatMap, List.flatMap_map]
    simp only [Group.members_map]
  rw [members]
  exact Group.split_of_same (fun clause => clause.flag.isLink) Condition.clause Condition.clause
    looks

/-- What is made of a condition that was visited. Triggers count only if everything else is met. -/
def outcome (history : History) (visit : Visit) (entry : Visited) : Condition :=
  if visit.allMet then entry.settle (visit.sight history) else entry.condition

theorem clause_outcome (history : History) (visit : Visit) (entry : Visited) :
    (outcome history visit entry).clause = entry.clause := by
  unfold outcome
  split
  · exact Visited.clause_settle _ _
  · rfl

theorem outcome_of_settled {visit : Visit} {entry : Visited} (settled : entry.postponed = none) :
    outcome history visit entry = entry.condition := by
  rw [outcome, Visited.settle_of_none settled, ite_self]

theorem conditions_of_conclude (achievement : Achievement) (history : History) (visit : Visit) :
    (achievement.conclude history visit).1.conditions =
      visit.behind.reverse.map (outcome history visit) := by
  have conditions : (if visit.allMet then
        visit.behind.reverse.map (Visited.settle (visit.sight history))
      else visit.behind.reverse.map Visited.condition) =
      visit.behind.reverse.map (outcome history visit) := by
    unfold outcome
    cases visit.allMet <;> rfl
  unfold conclude
  simp only [conditions]
  split <;> rfl

theorem remembered_of_conclude (achievement : Achievement) (history : History) (visit : Visit) :
    (achievement.conclude history visit).1.remembered = visit.remembered := by
  unfold conclude
  simp only
  split <;> rfl

theorem unlocks_of_conclude (achievement : Achievement) (history : History) (visit : Visit) :
    (achievement.conclude history visit).2 = true ↔ visit.allMet = true ∧
      ∀ entry ∈ visit.behind.reverse, entry.blocks (visit.sight history) = false := by
  have verdict : (achievement.conclude history visit).2 =
      (visit.allMet && !visit.behind.reverse.any (Visited.blocks (visit.sight history))) := by
    unfold conclude
    simp only
    split
    · rename_i unlocks
      exact unlocks.symm
    · rename_i stays
      exact (Bool.eq_false_iff.mpr stays).symm
  rw [verdict, Bool.and_eq_true, Bool.not_eq_true', List.any_eq_false]
  simp only [Bool.not_eq_true]

end Achievement

namespace Group

variable {history : History} {visit : Visit} {entries : Group Visited}

theorem clauses_of_outcome :
    (entries.map (Achievement.outcome history visit)).clauses = entries.map Visited.clause := by
  change (entries.map _).map Condition.clause = _
  rw [map_map]
  simp only [Achievement.clause_outcome]

theorem counting_of_outcome :
    (entries.map (Achievement.outcome history visit)).counting Condition.hasTarget =
      Achievement.outcome history visit (entries.counting Visited.hasTarget) := by
  rw [counting_map]
  simp only [Condition.hasTarget, Achievement.clause_outcome]
  rfl

/-- The counter that a group before the triggers counts by is not touched again. -/
theorem met_of_contributing (deferred : entries.Deferred)
    (contributes : (entries.map Visited.clause).contributes = true) :
    ((entries.map (Achievement.outcome history visit)).counting Condition.hasTarget).counter.met =
      (entries.counting Visited.hasTarget).condition.counter.met := by
  have settles : (entries.map Visited.clause).isTrigger = false := by
    rw [isTrigger, beq_eq_false_iff_ne]
    intro trigger
    rw [Group.contributes, trigger] at contributes
    cases contributes
  have member : entries.counting Visited.hasTarget ∈ entries.members :=
    List.mem_of_getElem? (entries.getElem?_members_of_lt (entries.counting_index_lt _))
  rw [counting_of_outcome, Achievement.outcome_of_settled (deferred.settled settles _ member)]

/-- A group blocks the unlock if it is a trigger whose counter is not met. -/
theorem unblocked_iff_met (deferred : entries.Deferred) (allMet : visit.allMet = true) :
    (∀ entry ∈ entries.members, entry.blocks (visit.sight history) = false) ↔
      ((entries.map Visited.clause).isTrigger = true →
        ((entries.map (Achievement.outcome history visit)).counting
          Condition.hasTarget).counter.met = true) := by
  cases trigger : (entries.map Visited.clause).isTrigger with
  | true =>
      rw [deferred.unblocked_iff trigger, counting_of_outcome, Achievement.outcome, if_pos allMet]
      exact ⟨fun met _ => met, fun met => met rfl⟩
  | false =>
      have unblocked : ∀ entry ∈ entries.members, entry.blocks (visit.sight history) = false :=
        fun entry member => Visited.unblocked_of_none (deferred.settled trigger entry member) _
      exact iff_of_true unblocked fun absurd => by cases absurd

end Group

namespace Achievement

variable {history : History} {achievement : Achievement}

/-- The end of a visit is recorded in the counters that it leaves. -/
theorem recorded_of_conclude
    (unadjusted : ∀ clause ∈ achievement.clauses, clause.flag.adjusts = false) {visit : Visit}
    (visited : Visit.all history achievement = some visit) :
    let next := achievement.conclude history visit
    let groups := Group.split Condition.isLink next.1.conditions
    (next.1.primed = true ↔ ∀ group ∈ groups, group.clauses.contributes = true →
      (group.counting Condition.hasTarget).counter.met = true) ∧
    (next.2 = true ↔ next.1.primed = true ∧ ∀ group ∈ groups, group.clauses.isTrigger = true →
      (group.counting Condition.hasTarget).counter.met = true) := by
  obtain ⟨passed, clauses, past⟩ := has_passed_of_all unadjusted visited
  have behind : visit.behind.reverse = passed.flatMap Group.members := by
    rw [past.behind, List.append_nil, List.reverse_reverse]
  intro next groups
  have split : groups = passed.map (Group.map (outcome history visit)) := by
    simp only [groups, next]
    rw [conditions_of_conclude, behind]
    exact split_of_passed clauses _ (clause_outcome history visit)
  have primed : next.1.primed = visit.allMet := primed_of_conclude achievement history visit
  rw [split, List.forall_mem_map, List.forall_mem_map, primed]
  simp only [Group.clauses_of_outcome]
  constructor
  · rw [past.allMet, and_iff_right rfl]
    apply forall₂_congr
    intro entries member
    apply imp_congr_right
    intro contributes
    rw [Group.met_of_contributing (past.deferred entries member) contributes]
  · simp only [next]
    rw [unlocks_of_conclude, behind, List.forall_mem_flatMap]
    apply and_congr_right
    intro allMet
    apply forall₂_congr
    intro entries member
    exact Group.unblocked_iff_met (past.deferred entries member) allMet

/-- As long as no clause adds or takes off hits, the counters that a frame leaves tell what it has
decided. The achievement is primed exactly if no pause held, no reset was met, and every group that
counts before the triggers is met. It unlocks exactly if it is primed and every trigger is met. -/
theorem verdict_is_recorded (history : History) (achievement : Achievement)
    (locked : achievement.unlocked = false)
    (unadjusted : ∀ clause ∈ achievement.clauses, clause.flag ≠ .addHits ∧ clause.flag ≠ .subHits) :
    let next := achievement.step history
    let groups := Group.split Condition.isLink next.1.conditions
    (next.1.primed = true ↔
      achievement.isPaused history = false ∧ ¬ achievement.MeetsReset history ∧
        ∀ group ∈ groups, group.clauses.contributes = true →
          (group.counting Condition.hasTarget).counter.met = true) ∧
    (next.2 = true ↔
      next.1.primed = true ∧ ∀ group ∈ groups, group.clauses.isTrigger = true →
        (group.counting Condition.hasTarget).counter.met = true) := by
  intro next groups
  have unadjustedFlags : ∀ clause ∈ achievement.clauses, clause.flag.adjusts = false := by
    intro clause member
    have ⟨notAdded, notTaken⟩ := unadjusted clause member
    cases flag : clause.flag
    case addHits => exact absurd flag notAdded
    case subHits => exact absurd flag notTaken
    all_goals rfl
  cases paused : achievement.isPaused history with
  | true =>
      have stepped : next = ({ achievement with primed := false }, false) :=
        step_of_paused locked paused
      simp [stepped]
  | false =>
      by_cases meets : achievement.MeetsReset history
      · have stepped : next = (achievement.resetProgress, false) :=
          step_of_met_reset locked paused meets
        simp [stepped, meets, resetProgress]
      · obtain ⟨visit, visited, stepped⟩ := step_of_visited locked paused meets
        have recorded := recorded_of_conclude unadjustedFlags visited
        simp only [groups, next, stepped]
        refine ⟨?_, recorded.2⟩
        rw [recorded.1, true_and, and_iff_right meets]

/-- A chain with a target that lacks one hit and that a neighbour may start over, a chain closed by
a trigger, and a value that is remembered. -/
def nearlyDone : Achievement :=
  { id := "a", formula := "f"
    conditions := [⟨byteEquals .resetNextIf 1 1, {}⟩,
      ⟨{ byteEquals .andNext 2 0 with target := 2 }, ⟨1, true⟩⟩, ⟨byteEquals .plain 3 0, {}⟩,
      ⟨byteEquals .orNext 4 1, {}⟩, ⟨byteEquals .trigger 5 0, {}⟩, ⟨byteEquals .remember 6 0, {}⟩] }

theorem last_hit_is_recorded :
    nearlyDone.unlocked = false ∧
      (∀ clause ∈ nearlyDone.clauses, clause.flag ≠ .addHits ∧ clause.flag ≠ .subHits) ∧
      let next := nearlyDone.step zeros
      let groups := Group.split Condition.isLink next.1.conditions
      next.2 = true ∧ next.1.primed = true ∧
        (∀ group ∈ groups, group.clauses.contributes = true →
          (group.counting Condition.hasTarget).counter.met = true) ∧
        ∀ group ∈ groups, group.clauses.isTrigger = true →
          (group.counting Condition.hasTarget).counter.met = true := by
  have locked : nearlyDone.unlocked = false := rfl
  have unadjusted : ∀ clause ∈ nearlyDone.clauses,
      clause.flag ≠ .addHits ∧ clause.flag ≠ .subHits := by decide
  have unlocks : (nearlyDone.step zeros).2 = true := by decide
  have recorded := verdict_is_recorded zeros nearlyDone locked unadjusted
  have ⟨primed, triggers⟩ := recorded.2.mp unlocks
  exact ⟨locked, unadjusted, unlocks, primed, (recorded.1.mp primed).2.2, triggers⟩

end Achievement

end Achievements
