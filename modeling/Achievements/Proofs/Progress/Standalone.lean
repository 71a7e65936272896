import Achievements.Progress.Frame

/-!
# One frame of a formula without chains

A clause stands alone if it neither joins, feeds nor adjusts another one. The visit of such a formula
is a pass over its conditions: each of them counts by itself, a reset that holds ends the visit, and
triggers are put off. `Achievement.step_of_reset` and `Achievement.step_of_active` give the frame
that results, as long as no clause makes its neighbour start over.
-/

set_option autoImplicit false

namespace Achievements

namespace Flag

/-- Does a clause count on every frame that is neither paused nor reset? -/
def isCounted : Flag → Bool
  | .plain | .measured | .measuredPercent => true
  | _ => false

/-- Does a clause leave its neighbours alone, apart from making the next one start over? -/
def standsAlone : Flag → Bool
  | .plain | .measured | .measuredPercent | .measuredIf | .pauseIf | .resetIf | .resetNextIf
  | .trigger => true
  | _ => false

theorem not_link_of_stands_alone {flag : Flag} (alone : flag.standsAlone = true) :
    flag.isLink = false := by
  cases flag <;> first | rfl | cases alone

end Flag

namespace Sight

/-- Does a clause hold that nothing was accumulated for? -/
def holdsAlone (sight : Sight) (clause : Clause) : Bool :=
  sight.holds clause {}

theorem all_hold_single (sight : Sight) (clause : Clause) (accumulated : Accumulated) :
    sight.allHold [clause] accumulated = sight.holds clause accumulated := by
  unfold allHold
  split <;> simp

end Sight

namespace Group

theorem split_of_no_links {α : Type} (isLink : α → Bool) (list : List α)
    (unlinked : ∀ member ∈ list, isLink member = false) :
    split isLink list = list.map fun member => ⟨[], member⟩ := by
  induction list with
  | nil => rfl
  | cons member rest ih =>
      have later := ih fun other inRest => unlinked other (List.mem_cons_of_mem _ inRest)
      have head := unlinked member List.mem_cons_self
      rw [split, later, head]
      rfl

end Group

namespace Condition

/-- The condition after one frame, on which triggers count or do not. -/
def pass (sight : Sight) (triggersCount : Bool) (condition : Condition) : Condition :=
  if condition.clause.flag.isCounted || (triggersCount && condition.clause.flag == .trigger) then
    condition.accrue (sight.holdsAlone condition.clause)
  else condition

/-- Would the condition be met after a frame on which it counts? -/
def meets (sight : Sight) (condition : Condition) : Bool :=
  (condition.accrue (sight.holdsAlone condition.clause)).counter.met

end Condition

namespace Visit

/-- What the visit leaves behind of a condition that stands alone. -/
def passed (sight : Sight) (condition : Condition) : Visited where
  condition := condition.pass sight false
  postponed := if condition.clause.flag = .trigger then some ⟨[condition.clause], {}⟩ else none

/-- Does the condition throw all progress away? -/
def resets (sight : Sight) (condition : Condition) : Bool :=
  condition.clause.flag == .resetIf && sight.holdsAlone condition.clause

theorem counting_index_single (condition : Condition) :
    Group.countingIndex Condition.hasTarget ⟨[], condition⟩ = 0 := by
  simp only [Group.countingIndex, Group.members, List.nil_append, List.findIdx?_singleton]
  split <;> rfl

theorem count_single (visit : Visit) (history : History) (condition : Condition) :
    ∃ tally, visit.count history ⟨[], condition⟩ =
      { visit.leave [condition.accrue
          ((visit.sight history).holds condition.clause visit.accumulated)] with
        allMet := visit.allMet && (condition.accrue
          ((visit.sight history).holds condition.clause visit.accumulated)).counter.met
        tally } := by
  refine ⟨(visit.count history ⟨[], condition⟩).tally, ?_⟩
  unfold count
  rw [counting_index_single]
  simp only [Group.members, List.nil_append, List.map_cons, List.map_nil, Sight.all_hold_single]
  rfl

/-- One condition that stands alone is passed. Only what is measured on the way is left open. -/
theorem next_of_standing_alone (history : History) (behind : List Visited) (allMet : Bool)
    (tally : Tally) (remembered : Option Number) (condition : Condition)
    (alone : condition.clause.flag.standsAlone = true)
    (steady : condition.clause.flag = .resetNextIf →
      Sight.holdsAlone ⟨history, remembered⟩ condition.clause = false) :
    ∃ measured, next history { behind, allMet, tally, remembered } ⟨[], condition⟩ =
      if resets ⟨history, remembered⟩ condition then none
      else some
        { behind := passed ⟨history, remembered⟩ condition :: behind
          allMet := allMet && (!condition.clause.flag.isCounted ||
            condition.meets ⟨history, remembered⟩)
          tally := measured, remembered } := by
  have unlinked : condition.isLink = false := Flag.not_link_of_stands_alone alone
  have visitsSingle : next history { behind, allMet, tally, remembered } ⟨[], condition⟩ =
      single { behind, allMet, tally, remembered } history condition := by
    simp [next, Group.isSingle, unlinked]
  rw [visitsSingle]
  obtain ⟨measured, counted⟩ :=
    count_single { behind, allMet, tally, remembered } history condition
  unfold single
  cases flag : condition.clause.flag <;> rw [flag] at alone <;> cases alone
  case plain | measured | measuredPercent =>
    refine ⟨measured, ?_⟩
    simp only [counted]
    simp [flag, resets, passed, leave, sight, Condition.pass, Flag.isCounted, Condition.meets,
      Sight.holdsAlone]
  case resetNextIf =>
    refine ⟨tally, ?_⟩
    have quiet := steady flag
    simp only [Sight.holdsAlone] at quiet
    simp [flag, resets, passed, leave, sight, Condition.pass, Flag.isCounted, quiet]
  case trigger =>
    refine ⟨tally, ?_⟩
    simp [flag, resets, passed, postpone, Condition.pass, Flag.isCounted]
  case pauseIf | measuredIf | resetIf =>
    refine ⟨tally, ?_⟩
    simp [flag, resets, passed, leave, sight, Condition.pass, Flag.isCounted, Sight.holdsAlone]

theorem fold_of_standing_alone (history : History) (remembered : Option Number)
    (conditions : List Condition)
    (alone : ∀ condition ∈ conditions, condition.clause.flag.standsAlone = true)
    (steady : ∀ condition ∈ conditions, condition.clause.flag = .resetNextIf →
      Sight.holdsAlone ⟨history, remembered⟩ condition.clause = false)
    (behind : List Visited) (allMet : Bool) (tally : Tally) :
    ∃ measured, (conditions.map fun condition => (⟨[], condition⟩ : Group Condition)).foldlM
        (next history) { behind, allMet, tally, remembered } =
      if conditions.any (resets ⟨history, remembered⟩) then none
      else some
        { behind := (conditions.map (passed ⟨history, remembered⟩)).reverse ++ behind
          allMet := allMet && conditions.all fun condition =>
            !condition.clause.flag.isCounted || condition.meets ⟨history, remembered⟩
          tally := measured, remembered } := by
  induction conditions generalizing behind allMet tally with
  | nil => exact ⟨tally, by simp⟩
  | cons condition rest ih =>
      obtain ⟨afterHead, head⟩ := next_of_standing_alone history behind allMet tally remembered
        condition (alone condition List.mem_cons_self) (steady condition List.mem_cons_self)
      simp only [List.map_cons, List.foldlM_cons, head]
      by_cases reset : resets ⟨history, remembered⟩ condition = true
      · exact ⟨tally, by simp [reset]⟩
      · obtain ⟨measured, tail⟩ := ih
          (fun other member => alone other (List.mem_cons_of_mem _ member))
          (fun other member => steady other (List.mem_cons_of_mem _ member))
          (passed ⟨history, remembered⟩ condition :: behind)
          (allMet && (!condition.clause.flag.isCounted || condition.meets ⟨history, remembered⟩))
          afterHead
        refine ⟨measured, ?_⟩
        simp only [reset, Bool.false_eq_true, if_false, Option.bind_eq_bind, Option.bind_some, tail,
          List.any_cons, Bool.false_or, List.all_cons, List.reverse_cons, List.append_assoc,
          List.singleton_append, Bool.and_assoc]

end Visit

namespace Visited

theorem settle_passed (sight : Sight) (condition : Condition) :
    (Visit.passed sight condition).settle sight = condition.pass sight true := by
  unfold settle Visit.passed Condition.pass
  by_cases trigger : condition.clause.flag = .trigger
  · simp [trigger, Flag.isCounted, Sight.all_hold_single, Sight.holdsAlone]
  · simp [trigger]

theorem blocks_passed (sight : Sight) (condition : Condition) :
    (Visit.passed sight condition).blocks sight =
      (condition.clause.flag == .trigger && !condition.meets sight) := by
  rw [blocks, settle_passed]
  unfold Visit.passed Condition.pass Condition.meets
  by_cases trigger : condition.clause.flag = .trigger
  · simp [trigger]
  · simp [trigger]

end Visited

namespace Achievement

/-- Is everything met that has to be before triggers count? -/
def primes (history : History) (achievement : Achievement) : Bool :=
  achievement.conditions.all fun condition => !condition.clause.flag.isCounted ||
    condition.meets ⟨history, achievement.remembered⟩

/-- Are all triggers met after a frame on which they count? -/
def triggersMeet (history : History) (achievement : Achievement) : Bool :=
  achievement.conditions.all fun condition => !(condition.clause.flag == .trigger) ||
    condition.meets ⟨history, achievement.remembered⟩

/-- A formula in which every clause stands alone and none makes its neighbour start over on a
frame. -/
structure StandsAlone (history : History) (achievement : Achievement) : Prop where
  alone : ∀ condition ∈ achievement.conditions, condition.clause.flag.standsAlone = true
  steady : ∀ condition ∈ achievement.conditions, condition.clause.flag = .resetNextIf →
    Sight.holdsAlone ⟨history, achievement.remembered⟩ condition.clause = false

variable {history : History} {achievement : Achievement}

theorem visit_of_standing_alone (standing : achievement.StandsAlone history) :
    ∃ measured, Visit.all history achievement =
      if achievement.conditions.any (Visit.resets ⟨history, achievement.remembered⟩) then none
      else some
        { behind :=
            (achievement.conditions.map (Visit.passed ⟨history, achievement.remembered⟩)).reverse
          allMet := achievement.primes history
          tally := measured
          remembered := achievement.remembered } := by
  have singles := Group.split_of_no_links Condition.isLink achievement.conditions
    fun condition member => Flag.not_link_of_stands_alone (standing.alone condition member)
  obtain ⟨measured, visited⟩ := Visit.fold_of_standing_alone history achievement.remembered
    achievement.conditions standing.alone standing.steady [] true {}
  refine ⟨measured, ?_⟩
  rw [Visit.all, singles, visited]
  simp [primes]

/-- On a frame on which a reset holds, and no pause does, all progress is lost. -/
theorem step_of_reset (standing : achievement.StandsAlone history)
    (locked : achievement.unlocked = false) (unpaused : achievement.isPaused history = false)
    (reset : achievement.conditions.any (Visit.resets ⟨history, achievement.remembered⟩) = true) :
    achievement.step history = (achievement.resetProgress, false) := by
  obtain ⟨measured, visited⟩ := visit_of_standing_alone standing
  rw [if_pos reset] at visited
  simp [step, locked, unpaused, visited]

/-- The end of a visit that went past every condition. -/
theorem conclude_passed (locked : achievement.unlocked = false) (visit : Visit)
    (behind : visit.behind =
      (achievement.conditions.map (Visit.passed ⟨history, achievement.remembered⟩)).reverse)
    (remembered : visit.remembered = achievement.remembered) :
    let next := achievement.conclude history visit
    next.2 = (visit.allMet && achievement.triggersMeet history) ∧ next.1.unlocked = next.2 ∧
      next.1.remembered = achievement.remembered ∧
      next.1.conditions = achievement.conditions.map
        (Condition.pass ⟨history, achievement.remembered⟩ visit.allMet) := by
  have sees : visit.sight history = ⟨history, achievement.remembered⟩ := by
    rw [Visit.sight, remembered]
  have blocked : (visit.behind.reverse.any (Visited.blocks (visit.sight history))) =
      !achievement.triggersMeet history := by
    rw [behind, List.reverse_reverse, sees, List.any_map, triggersMeet, List.not_all_eq_any_not]
    congr 1
    funext condition
    simp [Visited.blocks_passed]
  have conditions : (if visit.allMet then
        visit.behind.reverse.map (Visited.settle (visit.sight history))
      else visit.behind.reverse.map Visited.condition) =
      achievement.conditions.map
        (Condition.pass ⟨history, achievement.remembered⟩ visit.allMet) := by
    rw [behind, List.reverse_reverse, sees, List.map_map, List.map_map]
    cases visit.allMet with
    | true => exact List.map_congr_left fun condition _ => Visited.settle_passed _ condition
    | false => rfl
  intro next
  by_cases opens : (visit.allMet && achievement.triggersMeet history) = true
  · have concluded : next = ({ achievement with
        conditions := achievement.conditions.map
          (Condition.pass ⟨history, achievement.remembered⟩ visit.allMet)
        remembered := visit.remembered, primed := visit.allMet, unlocked := true }, true) := by
      simp only [next, conclude, blocked, Bool.not_not, opens, if_true, conditions]
    rw [concluded]
    exact ⟨opens.symm, rfl, remembered, rfl⟩
  · have concluded : next = ({ achievement with
        conditions := achievement.conditions.map
          (Condition.pass ⟨history, achievement.remembered⟩ visit.allMet)
        remembered := visit.remembered, primed := visit.allMet
        measure := visit.tally.publish (achievement.gateOpen history) }, false) := by
      simp only [next, conclude, blocked, Bool.not_not, opens, conditions]
      rfl
    rw [concluded]
    exact ⟨(Bool.eq_false_iff.mpr opens).symm, locked, remembered, rfl⟩

/-- On a frame on which neither a pause nor a reset holds every condition counts by itself, triggers
as soon as all others are met. The achievement unlocks once the triggers are met too. -/
theorem step_of_active (standing : achievement.StandsAlone history)
    (locked : achievement.unlocked = false) (unpaused : achievement.isPaused history = false)
    (unreset :
      achievement.conditions.any (Visit.resets ⟨history, achievement.remembered⟩) = false) :
    let next := achievement.step history
    next.2 = (achievement.primes history && achievement.triggersMeet history) ∧
      next.1.unlocked = next.2 ∧ next.1.remembered = achievement.remembered ∧
      next.1.conditions = achievement.conditions.map
        (Condition.pass ⟨history, achievement.remembered⟩ (achievement.primes history)) := by
  obtain ⟨measured, visited⟩ := visit_of_standing_alone standing
  rw [unreset, if_neg Bool.false_ne_true] at visited
  simp only [step, locked, unpaused, visited, Bool.false_eq_true, if_false]
  exact conclude_passed locked _ rfl rfl

end Achievement

end Achievements
