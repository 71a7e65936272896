import Achievements.Proofs.Plan.Agreement

/-!
# Frames that are cut short

A pause ends a frame before any group is visited, and a reset that holds ends it in the middle of
the visit. `Achievement.all_eq_none_iff` says when the visit does not get to the end: only the visit
itself can tell whether a reset holds, since it depends on what was accumulated and remembered on the
way. `Achievement.step_related` takes two frames apart by the ways in which they may end.
-/

set_option autoImplicit false

namespace Achievements

/-- A fold that may fail does so at one of its items, in the state that the earlier ones led to. -/
theorem fold_eq_none_iff_exists {α β : Type} (step : β → α → Option β) (items : List α)
    (start : β) : items.foldlM step start = none ↔
      ∃ index item state, items[index]? = some item ∧
        (items.take index).foldlM step start = some state ∧ step state item = none := by
  induction items generalizing start with
  | nil => simp
  | cons item items ih =>
      rw [List.foldlM_cons, Option.bind_eq_bind]
      cases first : step start item with
      | none => exact iff_of_true rfl ⟨0, item, start, rfl, rfl, first⟩
      | some next =>
          rw [Option.bind_some, ih]
          constructor
          · rintro ⟨index, other, state, place, led, fails⟩
            refine ⟨index + 1, other, state, place, ?_, fails⟩
            rw [List.take_succ_cons, List.foldlM_cons, first]
            exact led
          · rintro ⟨index, other, state, place, led, fails⟩
            cases index with
            | zero =>
                cases place
                cases led
                rw [first] at fails
                cases fails
            | succ index =>
                rw [List.take_succ_cons, List.foldlM_cons, first] at led
                exact ⟨index, other, state, place, led, fails⟩

namespace Visit

variable {history : History}

theorem single_eq_none_iff (visit : Visit) (condition : Condition) :
    visit.single history condition = none ↔ condition.clause.flag = .resetIf ∧
      (visit.sight history).holds condition.clause visit.accumulated = true := by
  unfold single
  cases flag : condition.clause.flag
  case resetIf =>
    cases holds : (visit.sight history).holds condition.clause visit.accumulated <;>
      simp [flag, holds]
  all_goals simp [flag]

theorem chain_eq_none_iff (visit : Visit) (group : Group Condition) :
    visit.chain history group = none ↔ group.last.clause.flag = .resetIf ∧
      (visit.sight history).allHold (group.members.map (·.clause)) visit.accumulated = true := by
  unfold chain
  cases flag : group.last.clause.flag
  case resetIf =>
    cases (visit.sight history).allHold (group.members.map (·.clause)) visit.accumulated <;> simp
  all_goals simp

/-- Progress is thrown away by a group that is closed by a reset and holds. -/
theorem next_eq_none_iff (visit : Visit) (group : Group Condition) :
    next history visit group = none ↔ group.clauses.last.flag = .resetIf ∧
      (visit.sight history).allHold group.clauses.members visit.accumulated = true := by
  -- A hit count that was reset before the visit changes no clause of the group.
  obtain ⟨moved, same, visits⟩ : ∃ moved : Group Condition, moved.clauses = group.clauses ∧
      next history visit group =
        if moved.isSingle Condition.isLink then
          single { visit with resetNext := false } history moved.last
        else chain { visit with resetNext := false } history moved := by
    unfold next
    cases visit.resetNext with
    | true => exact ⟨resetFirst group, clauses_of_reset_first group, rfl⟩
    | false => exact ⟨group, rfl, rfl⟩
  rw [visits, ← same, Group.members_of_clauses]
  cases alone : moved.isSingle Condition.isLink with
  | true =>
      obtain ⟨links, last⟩ := moved
      rw [Group.isSingle, Bool.and_eq_true, List.isEmpty_iff] at alone
      obtain ⟨rfl, _⟩ := alone
      rw [if_pos rfl, single_eq_none_iff, Group.members, List.nil_append, List.map_singleton,
        Sight.all_hold_single]
      rfl
  | false =>
      rw [if_neg Bool.false_ne_true, chain_eq_none_iff]
      rfl

/-- What a group leaves for the next one: it starts over only behind a clause that makes it, and
something is accumulated for it only by an accumulator. -/
theorem left_over_of_next {visit after : Visit} {group : Group Condition}
    (visited : next history visit group = some after) :
    (group.last.clause.flag ≠ .resetNextIf → after.resetNext = false) ∧
      (group.last.clause.flag.isAccumulator = false → after.accumulated = {}) := by
  obtain ⟨moved, kind, visited⟩ := next_cases visited
  have last : moved.last.clause = group.last.clause := by
    rcases kind with rfl | rfl
    · rfl
    · exact congrArg Group.last (clauses_of_reset_first group)
  rw [← last]
  rcases visited with ⟨condition, rfl, -, single⟩ | ⟨-, chain⟩
  · simp only
    unfold Visit.single at single
    cases flag : condition.clause.flag <;> simp only [flag] at single
    case addSource | subSource | addAddress =>
      cases single
      exact ⟨fun _ => rfl, fun direct => by cases direct⟩
    case resetNextIf =>
      cases single
      exact ⟨fun quiet => absurd rfl quiet, fun _ => rfl⟩
    case resetIf =>
      split at single
      · cases single
      · cases single
        exact ⟨fun _ => rfl, fun _ => rfl⟩
    case addHits | subHits =>
      cases single
      split <;> exact ⟨fun _ => rfl, fun _ => rfl⟩
    all_goals
      cases single
      exact ⟨fun _ => rfl, fun _ => rfl⟩
  · unfold Visit.chain at chain
    cases flag : moved.last.clause.flag <;> simp only [flag] at chain
    case resetNextIf =>
      cases chain
      exact ⟨fun quiet => absurd rfl quiet, fun _ => rfl⟩
    case resetIf =>
      split at chain
      · cases chain
      · cases chain
        exact ⟨fun _ => rfl, fun _ => rfl⟩
    all_goals
      cases chain
      exact ⟨fun _ => rfl, fun _ => rfl⟩

end Visit

namespace Achievement

variable {history : History} {achievement : Achievement}

/-- Does the visit come to a reset that holds then? It may be single, or close a chain. -/
def MeetsReset (history : History) (achievement : Achievement) : Prop :=
  ∃ index group visit, achievement.groups[index]? = some group ∧
    achievement.visitUpTo history index = some visit ∧ group.last.flag = .resetIf ∧
    (visit.sight history).allHold group.members visit.accumulated = true

/-- The visit does not get to the end exactly if it comes to a reset that holds. -/
theorem all_eq_none_iff :
    Visit.all history achievement = none ↔ achievement.MeetsReset history := by
  have groups : (Group.split Condition.isLink achievement.conditions).map Group.clauses =
      achievement.groups := Group.split_clauses _
  rw [Visit.all, fold_eq_none_iff_exists, MeetsReset, ← groups]
  simp only [Visit.next_eq_none_iff, List.getElem?_map, Option.map_eq_some_iff]
  constructor
  · rintro ⟨index, group, visit, place, led, resets, holds⟩
    exact ⟨index, group.clauses, visit, ⟨group, place, rfl⟩, led, resets, holds⟩
  · rintro ⟨index, _, visit, ⟨group, place, rfl⟩, led, resets, holds⟩
    exact ⟨index, group, visit, place, led, resets, holds⟩

theorem is_paused_of_clauses (history : History) (achievement : Achievement) :
    achievement.isPaused history = achievement.clauses.any fun clause =>
      clause.flag == .pauseIf && Sight.holds ⟨history, achievement.remembered⟩ clause {} := by
  rw [clauses, List.any_map]
  rfl

theorem step_of_paused (locked : achievement.unlocked = false)
    (paused : achievement.isPaused history = true) :
    achievement.step history = ({ achievement with primed := false }, false) := by
  rw [step, if_neg (Bool.eq_false_iff.mp locked), if_pos paused]

theorem step_of_met_reset (locked : achievement.unlocked = false)
    (unpaused : achievement.isPaused history = false)
    (meets : achievement.MeetsReset history) :
    achievement.step history = (achievement.resetProgress, false) := by
  rw [step, if_neg (Bool.eq_false_iff.mp locked), if_neg (Bool.eq_false_iff.mp unpaused),
    all_eq_none_iff.mpr meets]

theorem step_of_all (locked : achievement.unlocked = false)
    (unpaused : achievement.isPaused history = false) {visit : Visit}
    (visited : Visit.all history achievement = some visit) :
    achievement.step history = achievement.conclude history visit := by
  rw [step, if_neg (Bool.eq_false_iff.mp locked), if_neg (Bool.eq_false_iff.mp unpaused), visited]

/-- Any other frame is visited to the end. -/
theorem step_of_visited (locked : achievement.unlocked = false)
    (unpaused : achievement.isPaused history = false)
    (quiet : ¬ achievement.MeetsReset history) :
    ∃ visit, Visit.all history achievement = some visit ∧
      achievement.step history = achievement.conclude history visit := by
  obtain ⟨visit, visited⟩ := Option.ne_none_iff_exists'.mp ((not_congr all_eq_none_iff).mpr quiet)
  exact ⟨visit, visited, step_of_all locked unpaused visited⟩

/-- A frame ends alike for two achievements that are related in whichever way it may end. -/
theorem step_related {first second : Achievement}
    {related : Achievement × Bool → Achievement × Bool → Prop}
    (unlocked : first.unlocked = second.unlocked)
    (paused : first.isPaused history = second.isPaused history)
    (idle : first.unlocked = true → related (first, false) (second, false))
    (halted : first.unlocked = false →
      related ({ first with primed := false }, false) ({ second with primed := false }, false))
    (visited : first.unlocked = false → first.isPaused history = false →
      (Visit.all history first = none ∧ Visit.all history second = none ∧
        related (first.resetProgress, false) (second.resetProgress, false)) ∨
      ∃ one two, Visit.all history first = some one ∧ Visit.all history second = some two ∧
        related (first.conclude history one) (second.conclude history two)) :
    related (first.step history) (second.step history) := by
  cases state : first.unlocked with
  | true =>
      rw [step_of_unlocked state, step_of_unlocked (unlocked.symm.trans state)]
      exact idle state
  | false =>
      have stateToo := unlocked.symm.trans state
      cases pause : first.isPaused history with
      | true =>
          rw [step_of_paused state pause, step_of_paused stateToo (paused.symm.trans pause)]
          exact halted state
      | false =>
          have pauseToo := paused.symm.trans pause
          rcases visited state pause with ⟨none, noneToo, reset⟩ | ⟨one, two, some, someToo, concluded⟩
          · rwa [step_of_met_reset state pause (all_eq_none_iff.mp none),
              step_of_met_reset stateToo pauseToo (all_eq_none_iff.mp noneToo)]
          · rwa [step_of_all state pause some, step_of_all stateToo pauseToo someToo]

end Achievement

end Achievements
