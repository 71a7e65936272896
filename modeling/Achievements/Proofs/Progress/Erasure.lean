import Achievements.Proofs.Progress.Recorded

/-!
# What a frame does not look at

An achievement keeps for each condition whether it is met, and for itself whether it is primed and
what it publishes. A frame decides all of these anew: `Achievement.verdicts_are_not_read` says that
what was kept of them before makes no difference to any later hit. Every part of a frame is compared
with the same part after these notes were erased.
-/

set_option autoImplicit false

namespace Achievements

namespace Condition

/-- The condition without the note whether it is met. -/
def bare (condition : Condition) : Condition :=
  { condition with counter := { condition.counter with met := false } }

theorem accrue_bare (truth : Bool) (condition : Condition) :
    condition.bare.accrue truth = condition.accrue truth :=
  rfl

/-- Conditions without these notes are their clauses and hits. -/
theorem bare_eq_iff {firsts seconds : List Condition} :
    firsts.map bare = seconds.map bare ↔
      firsts.map (·.clause) = seconds.map (·.clause) ∧
        firsts.map (·.counter.hits) = seconds.map (·.counter.hits) := by
  induction firsts generalizing seconds with
  | nil => cases seconds <;> simp
  | cons first firsts ih =>
      cases seconds with
      | nil => simp
      | cons second seconds =>
          have head : first.bare = second.bare ↔
              first.clause = second.clause ∧ first.counter.hits = second.counter.hits := by
            simp [bare]
          simp only [List.map_cons, List.cons.injEq, ih, head]
          exact and_and_and_comm

end Condition

namespace Visited

def bare (visited : Visited) : Visited :=
  { visited with condition := visited.condition.bare }

theorem settle_bare (sight : Sight) (visited : Visited) :
    (visited.bare.settle sight).bare = (visited.settle sight).bare := by
  obtain ⟨condition, postponed⟩ := visited
  cases postponed <;> rfl

theorem blocks_bare (sight : Sight) (visited : Visited) :
    visited.bare.blocks sight = visited.blocks sight := by
  obtain ⟨condition, postponed⟩ := visited
  cases postponed <;> rfl

end Visited

namespace Visit

variable (visit : Visit) (history : History)

def bare : Visit :=
  { visit with behind := visit.behind.map Visited.bare }

theorem bare_bare : visit.bare.bare = visit.bare := by
  simp only [bare, List.map_map]
  rfl

theorem bare_congr {first second : Visit}
    (behind : first.behind.map Visited.bare = second.behind.map Visited.bare)
    (rest : { first with behind := [] } = { second with behind := [] }) :
    first.bare = second.bare := by
  have erased := congrArg (fun visit : Visit => { visit with behind := second.bare.behind }) rest
  rw [bare, behind]
  exact erased

theorem map_unmarked_bare (conditions : List Condition) :
    (conditions.map Visited.unmarked).map Visited.bare =
      (conditions.map Condition.bare).map Visited.unmarked := by
  rw [List.map_map, List.map_map]
  rfl

theorem clauses_bare (conditions : List Condition) :
    (conditions.map Condition.bare).map (·.clause) = conditions.map (·.clause) := by
  rw [List.map_map]
  rfl

theorem map_bare_bare (conditions : List Condition) :
    (conditions.map Condition.bare).map Condition.bare = conditions.map Condition.bare := by
  rw [List.map_map]
  rfl

theorem behind_bare_bare : visit.bare.behind.map Visited.bare = visit.behind.map Visited.bare :=
  congrArg behind visit.bare_bare

theorem bare_leave (conditions : List Condition) :
    (visit.leave conditions).bare = (visit.bare.leave (conditions.map Condition.bare)).bare := by
  have behind : (visit.leave conditions).behind.map Visited.bare =
      (visit.bare.leave (conditions.map Condition.bare)).behind.map Visited.bare := by
    rw [behind_leave, behind_leave, List.map_append, List.map_append, List.map_reverse,
      List.map_reverse, map_unmarked_bare, map_unmarked_bare, map_bare_bare, behind_bare_bare]
  exact bare_congr behind rfl

theorem bare_postpone (conditions : List Condition) (index : Nat) :
    (visit.postpone conditions index).bare =
      (visit.bare.postpone (conditions.map Condition.bare) index).bare := by
  have behind : (visit.postpone conditions index).behind.map Visited.bare =
      (visit.bare.postpone (conditions.map Condition.bare) index).behind.map Visited.bare := by
    rw [behind_postpone, behind_postpone, List.map_append, List.map_append, List.map_reverse,
      List.map_reverse, clauses_bare, behind_bare_bare,
      map_modify_of_commutes Visited.bare (Visited.putOff _) (Visited.putOff _) fun _ => rfl,
      map_modify_of_commutes Visited.bare (Visited.putOff _) (Visited.putOff _) fun _ => rfl,
      map_unmarked_bare, map_unmarked_bare, map_bare_bare]
    rfl
  exact bare_congr behind rfl

theorem bare_adjust_behind (increment : Bool) :
    (visit.adjustBehind increment).bare = (visit.bare.adjustBehind increment).bare := by
  unfold bare adjustBehind
  cases visit.behind with
  | nil => rfl
  | cons entry rest =>
      simp only [List.modifyHead_cons, List.map_cons, List.map_map]
      rfl

/-- A counter that counts decides anew whether it is met. -/
theorem bare_count (group : Group Condition) :
    (visit.count history group).bare =
      (visit.bare.count history (group.map Condition.bare)).bare := by
  have clauses : (group.map Condition.bare).members.map (·.clause) =
      group.members.map (·.clause) := by
    rw [Group.members_map, clauses_bare]
  have index : (group.map Condition.bare).countingIndex Condition.hasTarget =
      group.countingIndex Condition.hasTarget := Group.counting_index_map _ _ _
  -- The member that counts loses its note either way, the others keep theirs until they are erased.
  have members : ∀ truth, (group.members.modify (group.countingIndex Condition.hasTarget)
      (Condition.accrue truth)).map Condition.bare =
        ((group.members.map Condition.bare).modify (group.countingIndex Condition.hasTarget)
          (Condition.accrue truth)).map Condition.bare := by
    intro truth
    let accrued : Condition → Condition := fun condition => (condition.accrue truth).bare
    rw [map_modify_of_commutes Condition.bare (Condition.accrue truth) accrued fun _ => rfl,
      map_modify_of_commutes Condition.bare (Condition.accrue truth) accrued fun _ => rfl,
      List.map_map]
    rfl
  have behind : (visit.count history group).behind.map Visited.bare =
      (visit.bare.count history (group.map Condition.bare)).behind.map Visited.bare := by
    rw [behind_count, behind_count, clauses, index, Group.members_map, List.map_append,
      List.map_append, List.map_reverse, List.map_reverse, map_unmarked_bare, map_unmarked_bare,
      members, behind_bare_bare]
    rfl
  have allMet : (visit.count history group).allMet =
      (visit.bare.count history (group.map Condition.bare)).allMet := by
    simp only [count, clauses, index, Group.member_at_map, Condition.accrue_bare]
    rfl
  have tally : (visit.count history group).tally =
      (visit.bare.count history (group.map Condition.bare)).tally := rfl
  rw [bare, bare, behind, allMet, tally]
  rfl

/-- Two ways to go on from visits that differ in these notes only differ in them only. -/
theorem bare_single (condition : Condition) :
    (visit.single history condition).map bare =
      (visit.bare.single history condition.bare).map bare := by
  have left : (visit.leave [condition]).bare = (visit.bare.leave [condition.bare]).bare :=
    visit.bare_leave [condition]
  have clause : condition.bare.clause = condition.clause := rfl
  have truth : (visit.bare.sight history).holds condition.clause visit.bare.accumulated =
      (visit.sight history).holds condition.clause visit.accumulated := rfl
  have adjusted : ∀ increment, ((visit.adjustBehind increment).leave [condition]).bare =
      ((visit.bare.adjustBehind increment).leave [condition.bare]).bare := by
    intro increment
    rw [bare_leave, bare_adjust_behind, bare_leave (visit.bare.adjustBehind increment)]
    rfl
  unfold single
  cases flag : condition.clause.flag <;> simp only [clause, flag, truth]
  case pauseIf | measuredIf => exact congrArg some left
  case resetNextIf | remember => exact congrArg some (bare_congr (congrArg behind left) rfl)
  case addSource | subSource | addAddress =>
    unfold accumulate
    simp only [clause, flag]
    exact congrArg some (bare_congr (congrArg behind left) rfl)
  case resetIf =>
    split
    · rfl
    · exact congrArg some left
  case addHits | subHits =>
    split
    · exact congrArg some (adjusted _)
    · exact congrArg some left
  case trigger => exact congrArg some (visit.bare_postpone [condition] 0)
  case plain | measured | measuredPercent | andNext | orNext =>
    exact congrArg some (visit.bare_count history ⟨[], condition⟩)

theorem bare_chain (group : Group Condition) :
    (visit.chain history group).map bare =
      (visit.bare.chain history (group.map Condition.bare)).map bare := by
  have members := Group.members_map Condition.bare group
  have left : (visit.leave group.members).bare =
      (visit.bare.leave (group.map Condition.bare).members).bare := by
    rw [members]
    exact visit.bare_leave group.members
  have clauses : (group.map Condition.bare).members.map (·.clause) =
      group.members.map (·.clause) := by
    rw [members, clauses_bare]
  have truth : (visit.bare.sight history).allHold
      ((group.map Condition.bare).members.map (·.clause)) visit.bare.accumulated =
        (visit.sight history).allHold (group.members.map (·.clause)) visit.accumulated := by
    rw [clauses]
    rfl
  have last : (group.map Condition.bare).last.clause = group.last.clause := rfl
  have index : (group.map Condition.bare).countingIndex Condition.hasTarget =
      group.countingIndex Condition.hasTarget := Group.counting_index_map _ _ _
  unfold chain
  cases flag : group.last.clause.flag <;> simp only [last, flag, truth]
  case pauseIf | measuredIf => exact congrArg some left
  case resetNextIf => exact congrArg some (bare_congr (congrArg behind left) rfl)
  case resetIf =>
    split
    · rfl
    · exact congrArg some left
  case trigger =>
    rw [index, members]
    exact congrArg some (visit.bare_postpone group.members _)
  all_goals exact congrArg some (visit.bare_count history group)

theorem reset_first_bare (group : Group Condition) :
    resetFirst (group.map Condition.bare) = (resetFirst group).map Condition.bare := by
  obtain ⟨links, last⟩ := group
  cases links <;> rfl

theorem bare_next (group : Group Condition) :
    (next history visit group).map bare =
      (next history visit.bare (group.map Condition.bare)).map bare := by
  obtain ⟨moved, same, erased⟩ : ∃ moved : Group Condition,
      (if visit.resetNext then resetFirst group else group) = moved ∧
        (if visit.bare.resetNext then resetFirst (group.map Condition.bare)
          else group.map Condition.bare) = moved.map Condition.bare := by
    refine ⟨_, rfl, ?_⟩
    change (if visit.resetNext then _ else _) = _
    rw [reset_first_bare]
    split <;> rfl
  have alone : (moved.map Condition.bare).isSingle Condition.isLink =
      moved.isSingle Condition.isLink := by
    rw [Group.isSingle, Group.isSingle, Group.map, List.isEmpty_map]
    rfl
  simp only [next, same, erased, alone]
  split
  · exact bare_single _ history moved.last
  · exact bare_chain _ history moved

/-- By induction on the groups, visits that differ in these notes only go on to do so. -/
theorem fold_of_same {first second : Visit} {groups others : List (Group Condition)}
    (visits : first.bare = second.bare)
    (same : groups.map (Group.map Condition.bare) = others.map (Group.map Condition.bare)) :
    (groups.foldlM (next history) first).map bare =
      (others.foldlM (next history) second).map bare := by
  induction groups generalizing first second others with
  | nil =>
      rw [List.map_nil, eq_comm, List.map_eq_nil_iff] at same
      subst same
      exact congrArg some visits
  | cons group groups ih =>
      cases others with
      | nil => cases same
      | cons other others =>
          rw [List.map_cons, List.map_cons, List.cons.injEq] at same
          have head : (next history first group).map bare =
              (next history second other).map bare := by
            rw [bare_next, bare_next second, visits, same.1]
          rw [List.foldlM_cons, List.foldlM_cons]
          cases firstNext : next history first group with
          | none =>
              rw [firstNext, Option.map_none, eq_comm, Option.map_eq_none_iff] at head
              rw [head]
              rfl
          | some firstAfter =>
              rw [firstNext, Option.map_some, eq_comm, Option.map_eq_some_iff] at head
              obtain ⟨secondAfter, secondNext, after⟩ := head
              rw [secondNext]
              exact ih after.symm same.2

theorem all_of_same (history : History) {first second : Achievement}
    (conditions : first.conditions.map Condition.bare = second.conditions.map Condition.bare)
    (remembered : first.remembered = second.remembered) :
    (all history first).map bare = (all history second).map bare := by
  apply fold_of_same
  · rw [remembered]
  · have groups : ∀ conditions : List Condition,
        (Group.split Condition.isLink conditions).map (Group.map Condition.bare) =
          Group.split Condition.isLink (conditions.map Condition.bare) :=
      fun conditions => (Group.split_map Condition.isLink Condition.bare conditions).symm
    rw [groups, groups, conditions]

end Visit

namespace Achievement

variable {history : History} {first second : Achievement}

/-- The same formula, with the same hits and the same value remembered. -/
structure SharesProgress (first second : Achievement) : Prop where
  id : first.id = second.id
  formula : first.formula = second.formula
  clauses : first.clauses = second.clauses
  hits : first.conditions.map (·.counter.hits) = second.conditions.map (·.counter.hits)
  remembered : first.remembered = second.remembered
  unlocked : first.unlocked = second.unlocked

theorem outcome_bare (visit : Visit) (entry : Visited) :
    (outcome history visit entry.bare).bare = (outcome history visit entry).bare := by
  unfold outcome
  split
  · exact Visited.settle_bare _ entry
  · rfl

/-- Visits that differ in these notes only end alike. -/
theorem conclude_of_same (history : History) {firstVisit secondVisit : Visit}
    (visits : firstVisit.bare = secondVisit.bare) :
    let one := first.conclude history firstVisit
    let other := second.conclude history secondVisit
    one.2 = other.2 ∧ one.1.primed = other.1.primed ∧ one.1.remembered = other.1.remembered ∧
      one.1.conditions.map Condition.bare = other.1.conditions.map Condition.bare := by
  have allMet : firstVisit.allMet = secondVisit.allMet := by
    change firstVisit.bare.allMet = secondVisit.bare.allMet
    rw [visits]
  have remembered : firstVisit.remembered = secondVisit.remembered := by
    change firstVisit.bare.remembered = secondVisit.bare.remembered
    rw [visits]
  have sight : firstVisit.sight history = secondVisit.sight history := by
    rw [Visit.sight, Visit.sight, remembered]
  have behind : firstVisit.behind.reverse.map Visited.bare =
      secondVisit.behind.reverse.map Visited.bare := by
    rw [List.map_reverse, List.map_reverse]
    exact congrArg (fun visit : Visit => visit.behind.reverse) visits
  have unblocked : ∀ entries : List Visited, ∀ seen : Sight,
      (∀ entry ∈ entries, entry.blocks seen = false) ↔
        ∀ entry ∈ entries.map Visited.bare, entry.blocks seen = false := by
    intro entries seen
    simp only [List.forall_mem_map, Visited.blocks_bare]
  have outcomes : ∀ visit : Visit,
      (visit.behind.reverse.map (outcome history visit)).map Condition.bare =
        (visit.behind.reverse.map Visited.bare).map fun entry =>
          (outcome history visit entry).bare := by
    intro visit
    rw [List.map_map, List.map_map]
    exact List.map_congr_left fun entry _ => (outcome_bare visit entry).symm
  refine ⟨?_, ?_, ?_, ?_⟩
  · rw [Bool.eq_iff_iff, unlocks_of_conclude, unlocks_of_conclude, allMet, sight, unblocked, behind,
      ← unblocked]
  · rw [primed_of_conclude, primed_of_conclude, allMet]
  · rw [remembered_of_conclude, remembered_of_conclude, remembered]
  · have same : outcome history firstVisit = outcome history secondVisit := by
      funext entry
      rw [outcome, outcome, allMet, sight]
    rw [conditions_of_conclude, conditions_of_conclude, outcomes, outcomes, behind, same]

theorem reset_progress_bare (same : first.clauses = second.clauses) :
    first.resetProgress.conditions = second.resetProgress.conditions := by
  have fresh : ∀ achievement : Achievement,
      achievement.resetProgress.conditions = achievement.clauses.map Condition.fresh := by
    intro achievement
    rw [resetProgress, clauses, List.map_map]
    rfl
  rw [fresh, fresh, same]

/-- In whichever way a frame ends for one of them, it ends so for the other one. -/
theorem ends_of_shares (history : History) (shares : first.SharesProgress second) :
    (first.step history).2 = (second.step history).2 ∧
      (first.unlocked = false → (first.step history).1.primed = (second.step history).1.primed) ∧
      (first.step history).1.remembered = (second.step history).1.remembered ∧
      (first.step history).1.conditions.map Condition.bare =
        (second.step history).1.conditions.map Condition.bare := by
  have conditions : first.conditions.map Condition.bare = second.conditions.map Condition.bare :=
    Condition.bare_eq_iff.mpr ⟨shares.clauses, shares.hits⟩
  have paused : first.isPaused history = second.isPaused history := by
    rw [is_paused_of_clauses, is_paused_of_clauses, shares.clauses, shares.remembered]
  have visits := Visit.all_of_same history conditions shares.remembered
  let related : Achievement × Bool → Achievement × Bool → Prop := fun one other =>
    one.2 = other.2 ∧ (first.unlocked = false → one.1.primed = other.1.primed) ∧
      one.1.remembered = other.1.remembered ∧
      one.1.conditions.map Condition.bare = other.1.conditions.map Condition.bare
  change related (first.step history) (second.step history)
  apply step_related shares.unlocked paused
  · intro unlocked
    exact ⟨rfl, fun locked => absurd (locked.symm.trans unlocked) Bool.false_ne_true,
      shares.remembered, conditions⟩
  · exact fun _ => ⟨rfl, fun _ => rfl, shares.remembered, conditions⟩
  · intro _ _
    cases ends : Visit.all history first with
    | none =>
        rw [ends, Option.map_none, eq_comm, Option.map_eq_none_iff] at visits
        exact Or.inl ⟨rfl, visits, rfl, fun _ => rfl, rfl,
          congrArg _ (reset_progress_bare shares.clauses)⟩
    | some visit =>
        rw [ends, Option.map_some, eq_comm, Option.map_eq_some_iff] at visits
        obtain ⟨visitToo, endsToo, same⟩ := visits
        obtain ⟨reports, primed, rest⟩ := conclude_of_same history same.symm
        exact Or.inr ⟨visit, visitToo, rfl, endsToo, reports, fun _ => primed, rest⟩

/-- A frame reports the same for both, and leaves them with the same progress. -/
theorem step_of_shares (history : History) (shares : first.SharesProgress second) :
    (first.step history).2 = (second.step history).2 ∧
      (first.step history).1.SharesProgress (second.step history).1 := by
  obtain ⟨reports, _, remembered, after⟩ := ends_of_shares history shares
  have entries : (first.step history).1.entry = (second.step history).1.entry := by
    rw [entry_of_step, entry_of_step, entry, entry, shares.id, shares.formula]
  have unlocked : (first.step history).1.unlocked = (second.step history).1.unlocked := by
    rw [unlocked_after_step, unlocked_after_step, reports, shares.unlocked]
  obtain ⟨clauses, hits⟩ := Condition.bare_eq_iff.mp after
  exact ⟨reports, congrArg Prod.fst entries, congrArg Prod.snd entries, clauses, hits, remembered,
    unlocked⟩

theorem after_of_shares (shares : first.SharesProgress second) (frames : Nat → History)
    (count : Nat) : (first.after frames count).SharesProgress (second.after frames count) := by
  induction count with
  | zero => exact shares
  | succ count ih => exact (step_of_shares (frames count) ih).2

/-- Being primed is decided on the first frame, and kept from when the achievement unlocks. -/
theorem primed_of_shares (shares : first.SharesProgress second) (locked : first.unlocked = false)
    (frames : Nat → History) (count : Nat) :
    (first.after frames (count + 1)).primed = (second.after frames (count + 1)).primed := by
  induction count with
  | zero => exact (ends_of_shares (frames 0) shares).2.1 locked
  | succ count ih =>
      have before := after_of_shares shares frames (count + 1)
      cases state : (first.after frames (count + 1)).unlocked with
      | false => exact (ends_of_shares (frames (count + 1)) before).2.1 state
      | true =>
          change ((first.after frames (count + 1)).step (frames (count + 1))).1.primed =
            ((second.after frames (count + 1)).step (frames (count + 1))).1.primed
          rw [step_of_unlocked state, step_of_unlocked (before.unlocked.symm.trans state)]
          exact ih

/-- Whether conditions are met, whether the achievement is primed and what it publishes may have
been kept wrongly. None of it is read: two locked achievements with the same formula, the same hits
and the same value remembered unlock on the same frames, and after each frame they have the same
hits, remember the same and are primed or unlocked alike. -/
theorem verdicts_are_not_read (first second : Achievement) (frames : Nat → History) (frame : Nat)
    (locked : first.unlocked = false) (lockedToo : second.unlocked = false)
    (id : first.id = second.id) (formula : first.formula = second.formula)
    (clauses : first.clauses = second.clauses)
    (hits : first.conditions.map (·.counter.hits) = second.conditions.map (·.counter.hits))
    (remembered : first.remembered = second.remembered) :
    let one := first.after frames (frame + 1)
    let other := second.after frames (frame + 1)
    first.unlocksOn frames frame = second.unlocksOn frames frame ∧
      one.unlocked = other.unlocked ∧ one.primed = other.primed ∧
      one.remembered = other.remembered ∧
      one.conditions.map (·.counter.hits) = other.conditions.map (·.counter.hits) := by
  have shares : first.SharesProgress second :=
    ⟨id, formula, clauses, hits, remembered, locked.trans lockedToo.symm⟩
  have before := after_of_shares shares frames frame
  have after := after_of_shares shares frames (frame + 1)
  exact ⟨(step_of_shares (frames frame) before).1, after.unlocked,
    primed_of_shares shares locked frames frame, after.remembered, after.hits⟩

/-- All notes that are kept of `nearlyDone` turned into their opposite. -/
def stale : Achievement :=
  { nearlyDone with
    conditions := nearlyDone.conditions.map fun condition =>
      { condition with counter := { condition.counter with met := !condition.counter.met } }
    primed := !nearlyDone.primed
    measure := { current := 1, target := 2, isPercent := true, active := true } }

theorem stale_notes_are_replaced :
    stale.unlocked = false ∧ stale.primed ≠ nearlyDone.primed ∧
      stale.conditions ≠ nearlyDone.conditions ∧ stale.clauses = nearlyDone.clauses ∧
      stale.conditions.map (·.counter.hits) = nearlyDone.conditions.map (·.counter.hits) ∧
      let one := stale.after (fun _ => zeros) 1
      let other := nearlyDone.after (fun _ => zeros) 1
      stale.unlocksOn (fun _ => zeros) 0 = nearlyDone.unlocksOn (fun _ => zeros) 0 ∧
        one.unlocked = other.unlocked ∧ one.primed = other.primed ∧
        one.remembered = other.remembered ∧
        one.conditions.map (·.counter.hits) = other.conditions.map (·.counter.hits) := by
  have differ : stale.conditions ≠ nearlyDone.conditions := by
    intro same
    have met := congrArg (fun conditions : List Condition => conditions.map (·.counter.met)) same
    exact absurd met (by decide)
  exact ⟨rfl, by decide, differ, rfl, rfl,
    verdicts_are_not_read stale nearlyDone (fun _ => zeros) 0 rfl rfl rfl rfl rfl rfl rfl⟩

end Achievement

end Achievements
