import Achievements.Proofs.Progress.Moves

/-!
# Formulas about the present

A formula none of whose operands refers to an earlier frame does the same on any two histories that
agree on the current one: `Achievement.step_of_present`. The agreement is followed from the value of
an operand up to the whole frame.
-/

set_option autoImplicit false

namespace Achievements

/-- Does the operand refer to no earlier frame? -/
def Operand.isLive : Operand → Bool
  | .memory access => access.isLive
  | _ => true

def Clause.isLive (clause : Clause) : Bool :=
  clause.left.isLive && clause.right.isLive

def Achievement.IsLive (achievement : Achievement) : Prop :=
  ∀ clause ∈ achievement.clauses, clause.isLive = true

theorem any_of_same {α : Type} {first second : α → Bool} {items : List α}
    (same : ∀ item ∈ items, first item = second item) : items.any first = items.any second := by
  rw [Bool.eq_iff_iff, List.any_eq_true, List.any_eq_true]
  apply exists_congr
  intro item
  apply and_congr_right
  intro member
  rw [same item member]

theorem all_of_same {α : Type} {first second : α → Bool} {items : List α}
    (same : ∀ item ∈ items, first item = second item) : items.all first = items.all second := by
  rw [Bool.eq_iff_iff, List.all_eq_true, List.all_eq_true]
  apply forall₂_congr
  intro item member
  rw [same item member]

variable {first second : History}

theorem History.read_of_present (present : first.now = second.now) {access : MemoryAccess}
    (live : access.isLive = true) (bias : Int64) : first.read access bias = second.read access bias := by
  simp only [MemoryAccess.isLive, Bool.and_eq_true, Bool.not_eq_true'] at live
  simp only [read, generation, live.1, live.2, present, Bool.false_eq_true, if_false]

namespace Sight

variable {remembered : Option Number}

theorem value_of_present (present : first.now = second.now) {operand : Operand}
    (live : operand.isLive = true) (bias : Int64) :
    value ⟨first, remembered⟩ operand bias = value ⟨second, remembered⟩ operand bias := by
  cases operand with
  | memory access => exact History.read_of_present present live bias
  | _ => rfl

theorem left_of_present (present : first.now = second.now) {clause : Clause}
    (live : clause.isLive = true) (accumulated : Accumulated) :
    left ⟨first, remembered⟩ clause accumulated = left ⟨second, remembered⟩ clause accumulated := by
  rw [Clause.isLive, Bool.and_eq_true] at live
  rw [left, left, value_of_present present live.1]

theorem holds_of_present (present : first.now = second.now) {clause : Clause}
    (live : clause.isLive = true) (accumulated : Accumulated) :
    holds ⟨first, remembered⟩ clause accumulated =
      holds ⟨second, remembered⟩ clause accumulated := by
  rw [holds, holds, left_of_present present live]
  rw [Clause.isLive, Bool.and_eq_true] at live
  rw [value_of_present present live.2]

theorem all_hold_of_present (present : first.now = second.now) {clauses : List Clause}
    (live : ∀ clause ∈ clauses, clause.isLive = true) (accumulated : Accumulated) :
    allHold ⟨first, remembered⟩ clauses accumulated =
      allHold ⟨second, remembered⟩ clauses accumulated := by
  have same : ∀ clause ∈ clauses, holds ⟨first, remembered⟩ clause accumulated =
      holds ⟨second, remembered⟩ clause accumulated :=
    fun clause member => holds_of_present present (live clause member) accumulated
  unfold allHold
  rw [any_of_same same, all_of_same same]

end Sight

namespace Visit

variable {visit : Visit}

theorem count_of_present (present : first.now = second.now) {group : Group Condition}
    (live : ∀ condition ∈ group.members, condition.clause.isLive = true) :
    visit.count first group = visit.count second group := by
  have liveClauses : ∀ clause ∈ group.members.map (·.clause), clause.isLive = true := by
    simpa using live
  have liveLast : group.last.clause.isLive = true := live _ (by simp [Group.members])
  simp only [count, sight, Sight.all_hold_of_present present liveClauses,
    Sight.left_of_present present liveLast]

theorem accumulate_of_present (present : first.now = second.now) {condition : Condition}
    (live : condition.clause.isLive = true) :
    visit.accumulate first condition = visit.accumulate second condition := by
  rw [Clause.isLive, Bool.and_eq_true] at live
  simp only [accumulate, sight, Sight.value_of_present present live.1]

theorem single_of_present (present : first.now = second.now) {condition : Condition}
    (live : condition.clause.isLive = true) :
    visit.single first condition = visit.single second condition := by
  have counted : visit.count first ⟨[], condition⟩ = visit.count second ⟨[], condition⟩ :=
    count_of_present present (by simpa [Group.members] using live)
  have truth : (visit.sight first).holds condition.clause visit.accumulated =
      (visit.sight second).holds condition.clause visit.accumulated :=
    Sight.holds_of_present present live _
  have left : (visit.sight first).left condition.clause visit.accumulated =
      (visit.sight second).left condition.clause visit.accumulated :=
    Sight.left_of_present present live _
  have accumulated : visit.accumulate first condition = visit.accumulate second condition :=
    accumulate_of_present present live
  unfold single
  cases flag : condition.clause.flag with
  | resetIf =>
      simp only [flag]
      rw [truth]
  | _ => simp only [flag, truth, left, accumulated, counted]

theorem chain_of_present (present : first.now = second.now) {group : Group Condition}
    (live : ∀ condition ∈ group.members, condition.clause.isLive = true) :
    visit.chain first group = visit.chain second group := by
  have liveClauses : ∀ clause ∈ group.members.map (·.clause), clause.isLive = true := by
    simpa using live
  have truth : (visit.sight first).allHold (group.members.map (·.clause)) visit.accumulated =
      (visit.sight second).allHold (group.members.map (·.clause)) visit.accumulated :=
    Sight.all_hold_of_present present liveClauses _
  have counted : visit.count first group = visit.count second group :=
    count_of_present present live
  unfold chain
  cases group.last.clause.flag with
  | resetIf =>
      simp only
      rw [truth]
  | _ => simp only [truth, counted]

theorem next_of_present (present : first.now = second.now) {group : Group Condition}
    (live : ∀ condition ∈ group.members, condition.clause.isLive = true) :
    next first visit group = next second visit group := by
  have liveReset : ∀ condition ∈ (resetFirst group).members, condition.clause.isLive = true :=
    forall_of_related (moves_of_reset_first group)
      (fun _ _ moves live => by rwa [Condition.clause_of_moves moves]) live
  have liveGroup : ∀ condition ∈ (if visit.resetNext then resetFirst group else group).members,
      condition.clause.isLive = true := by
    split
    · exact liveReset
    · exact live
  have liveLast := liveGroup (if visit.resetNext then resetFirst group else group).last
    (by simp [Group.members])
  simp only [next, single_of_present present liveLast, chain_of_present present liveGroup]

theorem fold_of_present (present : first.now = second.now) {groups : List (Group Condition)}
    (live : ∀ condition ∈ groups.flatMap Group.members, condition.clause.isLive = true) :
    groups.foldlM (next first) visit = groups.foldlM (next second) visit := by
  induction groups generalizing visit with
  | nil => rw [List.foldlM_nil, List.foldlM_nil]
  | cons group groups ih =>
      rw [List.flatMap_cons, List.forall_mem_append] at live
      rw [List.foldlM_cons, List.foldlM_cons, next_of_present present live.1]
      exact bind_congr fun after => ih live.2

theorem all_of_present (present : first.now = second.now) {achievement : Achievement}
    (live : achievement.IsLive) : all first achievement = all second achievement := by
  apply fold_of_present present
  rw [Group.flatMap_members_split]
  exact fun condition member => live _ (List.mem_map_of_mem member)

end Visit

namespace Achievement

variable {achievement : Achievement}

theorem is_paused_of_present (present : first.now = second.now) (live : achievement.IsLive) :
    achievement.isPaused first = achievement.isPaused second := by
  apply any_of_same
  intro condition member
  rw [Sight.holds_of_present present (live _ (List.mem_map_of_mem member))]

theorem gate_open_of_present (present : first.now = second.now) (live : achievement.IsLive) :
    achievement.gateOpen first = achievement.gateOpen second := by
  apply all_of_same
  intro condition member
  exact Sight.holds_of_present present
    (live _ (List.mem_map_of_mem (List.mem_of_mem_filter member))) _

/-- What was put off during a visit consists of clauses of the formula. -/
theorem settle_of_present (present : first.now = second.now) {visit : Visit}
    (live : achievement.IsLive) (visited : Visit.all first achievement = some visit) :
    ∀ entry ∈ visit.behind.reverse,
      entry.settle (visit.sight first) = entry.settle (visit.sight second) := by
  have settles : ∀ condition entry, Visited.ComesFrom achievement.clauses condition entry → True →
      entry.settle (visit.sight first) = entry.settle (visit.sight second) := by
    intro condition entry comes _
    unfold Visited.settle
    cases postponed : entry.postponed with
    | none => rfl
    | some group =>
        have liveGroup : ∀ clause ∈ group.clauses, clause.isLive = true :=
          fun clause member => live clause (comes.drawn group postponed clause member)
        simp only [Visit.sight, Sight.all_hold_of_present present liveGroup]
  exact forall_of_related (Visit.covers_all visited) settles fun _ _ => trivial

theorem conclude_of_present (present : first.now = second.now) {visit : Visit}
    (live : achievement.IsLive) (visited : Visit.all first achievement = some visit) :
    achievement.conclude first visit = achievement.conclude second visit := by
  have settled := settle_of_present present live visited
  have blocks : ∀ entry ∈ visit.behind.reverse,
      entry.blocks (visit.sight first) = entry.blocks (visit.sight second) := by
    intro entry member
    rw [Visited.blocks, Visited.blocks, settled entry member]
  simp only [conclude, List.map_congr_left settled, any_of_same blocks,
    gate_open_of_present present live]

/-- A formula about the present does not tell histories of one present apart. -/
theorem step_of_present (present : first.now = second.now) (live : achievement.IsLive) :
    achievement.step first = achievement.step second := by
  unfold step
  rw [is_paused_of_present present live, ← Visit.all_of_present present live]
  split
  · rfl
  split
  · rfl
  split
  · rfl
  · rename_i visit visited
    exact conclude_of_present present live visited

end Achievement

end Achievements
