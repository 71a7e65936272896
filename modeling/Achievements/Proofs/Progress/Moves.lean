import Achievements.Proofs.Progress.Counting
import Mathlib.Data.List.Forall2
import Mathlib.Logic.Relation

/-!
# What a frame does to conditions

Whatever its formula, an achievement comes out of a frame with the conditions that it had, in their
order, each of them reset, counted or adjusted some number of times: `Achievement.moves_of_step`. The
visit is followed group by group. What holds of a counter because every one of these moves keeps it
then holds after any frame.
-/

set_option autoImplicit false

namespace Achievements

namespace Counter

/-- Counting decides anew whether the target is reached, and does not go beyond it. -/
theorem accrue_spec (target : UInt32) (truth : Bool) (counter : Counter) :
    ∃ hits, counter.accrue target truth = ofHits target hits ∧
      (0 < target → counter.hits ≤ target → hits ≤ target) := by
  unfold accrue
  by_cases untargeted : target = 0
  · refine ⟨if truth then 1 else counter.hits, if_pos untargeted, ?_⟩
    intro positive
    rw [untargeted] at positive
    exact absurd positive (by decide)
  · refine ⟨_, if_neg untargeted, ?_⟩
    intro _ within
    split
    · rename_i grows
      rw [Bool.and_eq_true, decide_eq_true_eq, UInt32.lt_iff_toNat_lt] at grows
      rw [UInt32.le_iff_toNat_le, UInt32.toNat_add, UInt32.toNat_one]
      have bound := target.toNat_lt
      omega
    · exact within

theorem adjust_spec (target : UInt32) (increment : Bool) (counter : Counter) :
    ∃ hits, counter.adjust target increment = ofHits target hits ∧
      (0 < target → counter.hits ≤ target → hits ≤ target) := by
  cases increment with
  | true =>
      refine ⟨_, rfl, ?_⟩
      intro positive within
      have targeted : target ≠ 0 := fun zero => absurd (zero ▸ positive) (by decide)
      split
      · rename_i grows
        simp only [targeted, decide_false, Bool.false_or, Bool.and_eq_true, decide_eq_true_eq,
          UInt32.lt_iff_toNat_lt] at grows
        rw [UInt32.le_iff_toNat_le, UInt32.toNat_add, UInt32.toNat_one]
        have bound := target.toNat_lt
        omega
      · exact within
  | false =>
      refine ⟨_, rfl, ?_⟩
      intro _ within
      split
      · exact UInt32.zero_le
      · rename_i some
        rw [UInt32.le_iff_toNat_le] at within ⊢
        have positive : counter.hits.toNat ≠ 0 := fun zero => some (UInt32.toNat_inj.mp zero)
        have one : (1 : UInt32) ≤ counter.hits := by
          rw [UInt32.le_iff_toNat_le, UInt32.toNat_one]
          omega
        rw [UInt32.toNat_sub_of_le _ _ one]
        omega

end Counter

namespace Condition

/-- The ways in which a counter changes. -/
inductive Move : Condition → Condition → Prop where
  | reset (condition : Condition) : Move condition condition.reset
  | accrue (condition : Condition) (truth : Bool) : Move condition (condition.accrue truth)
  | adjust (condition : Condition) (increment : Bool) : Move condition (condition.adjust increment)

abbrev Moves : Condition → Condition → Prop :=
  Relation.ReflTransGen Move

/-- A condition with a target has no more hits than that. -/
def Bounded (condition : Condition) : Prop :=
  0 < condition.clause.target → condition.counter.hits ≤ condition.clause.target

/-- A condition is met exactly if its hits are enough. -/
def Tallied (condition : Condition) : Prop :=
  condition.counter.met = true ↔
    Counter.cap condition.clause.target ≤ condition.counter.hits.toNat

variable {condition later : Condition}

/-- After a move, a condition has its clause and is met if its hits are enough. -/
theorem move_spec (move : condition.Move later) :
    ∃ hits, later = ⟨condition.clause, .ofHits condition.clause.target hits⟩ ∧
      (condition.Bounded → 0 < condition.clause.target → hits ≤ condition.clause.target) := by
  cases move with
  | reset =>
      have none : ({} : Counter) = .ofHits condition.clause.target 0 :=
        (Counter.after_no_hits condition.clause.target).symm.trans (by
          rw [Counter.afterHits, Nat.min_zero]
          rfl)
      exact ⟨0, congrArg _ none, fun _ _ => UInt32.zero_le⟩
  | accrue truth =>
      obtain ⟨hits, counted, within⟩ :=
        condition.counter.accrue_spec condition.clause.target truth
      exact ⟨hits, congrArg _ counted, fun bounded positive => within positive (bounded positive)⟩
  | adjust increment =>
      obtain ⟨hits, adjusted, within⟩ :=
        condition.counter.adjust_spec condition.clause.target increment
      exact ⟨hits, congrArg _ adjusted, fun bounded positive => within positive (bounded positive)⟩

theorem bounded_of_move (move : condition.Move later) (bounded : condition.Bounded) :
    later.Bounded := by
  obtain ⟨hits, rfl, within⟩ := move_spec move
  exact within bounded

theorem tallied_of_move (move : condition.Move later) : later.Tallied := by
  obtain ⟨hits, rfl, _⟩ := move_spec move
  rw [Tallied, Counter.ofHits, Counter.reached_iff, decide_eq_true_eq]

theorem bounded_fresh (clause : Clause) : (fresh clause).Bounded :=
  fun _ => UInt32.zero_le

theorem tallied_fresh (clause : Clause) : (fresh clause).Tallied :=
  tallied_of_move (.reset (fresh clause))

theorem clause_of_moves (moves : condition.Moves later) : later.clause = condition.clause := by
  induction moves with
  | refl => rfl
  | tail _ move ih =>
      obtain ⟨_, rfl, _⟩ := move_spec move
      exact ih

theorem clauses_of_moves {conditions laters : List Condition}
    (moves : List.Forall₂ Moves conditions laters) :
    laters.map (·.clause) = conditions.map (·.clause) := by
  induction moves with
  | nil => rfl
  | cons head _ ih => rw [List.map_cons, List.map_cons, clause_of_moves head, ih]

theorem bounded_of_moves (moves : condition.Moves later) (bounded : condition.Bounded) :
    later.Bounded := by
  induction moves with
  | refl => exact bounded
  | tail _ move ih => exact bounded_of_move move ih

theorem tallied_of_moves (moves : condition.Moves later) (tallied : condition.Tallied) :
    later.Tallied := by
  cases moves with
  | refl => exact tallied
  | tail _ move => exact tallied_of_move move

end Condition

/-- What one list has everywhere, a related list has too, if the relation carries it over. -/
theorem forall_of_related {α β : Type} {relation : α → β → Prop} {before : List α} {after : List β}
    {first : α → Prop} {second : β → Prop} (related : List.Forall₂ relation before after)
    (carries : ∀ left right, relation left right → first left → second right)
    (holds : ∀ left ∈ before, first left) : ∀ right ∈ after, second right := by
  induction related with
  | nil =>
      intro right member
      cases member
  | cons head _ ih =>
      rw [List.forall_mem_cons] at holds ⊢
      exact ⟨carries _ _ head holds.1, ih holds.2⟩

theorem forall_modify {α β : Type} {relation : α → β → Prop} {first : List α} {second : List β}
    (related : List.Forall₂ relation first second) (index : Nat) (change : β → β)
    (keeps : ∀ left right, relation left right → relation left (change right)) :
    List.Forall₂ relation first (second.modify index change) := by
  induction related generalizing index with
  | nil => cases index <;> exact .nil
  | cons head tail ih =>
      cases index with
      | zero => exact .cons (keeps _ _ head) tail
      | succ index => exact .cons head (ih index)

namespace Group

theorem getElem?_members_of_lt {α : Type} (group : Group α) {index : Nat}
    (below : index < group.members.length) : group.members[index]? = some (group.memberAt index) := by
  simp only [members, List.length_append, List.length_singleton] at below
  rw [members, memberAt, List.getD_eq_getElem?_getD]
  by_cases link : index < group.links.length
  · rw [List.getElem?_append_left link, List.getElem?_eq_getElem link, Option.getD_some]
  · have last : index = group.links.length := by omega
    subst last
    simp

/-- Changing the member at a place changes the members at that place. -/
theorem set_member_at {α : Type} (group : Group α) (index : Nat) (change : α → α) :
    group.members.set index (change (group.memberAt index)) =
      group.members.modify index change := by
  rw [List.modify_eq_set_getElem?]
  by_cases below : index < group.members.length
  · rw [group.getElem?_members_of_lt below]
    rfl
  · have beyond := Nat.le_of_not_lt below
    rw [List.getElem?_eq_none beyond, List.set_eq_of_length_le beyond]
    rfl

end Group

/-- A visited condition, after some moves. Nothing was put off for it but groups of some clauses. -/
structure Visited.ComesFrom (clauses : List Clause) (condition : Condition) (visited : Visited) :
    Prop where
  moves : condition.Moves visited.condition
  drawn : ∀ group ∈ visited.postponed, ∀ clause ∈ group.clauses, clause ∈ clauses

namespace Visit

/-- What is behind in a visit are these conditions, after some moves. -/
def Covers (clauses : List Clause) (visit : Visit) (conditions : List Condition) : Prop :=
  List.Forall₂ (Visited.ComesFrom clauses) conditions.reverse visit.behind

variable {clauses : List Clause} {history : History} {visit after : Visit}
  {done members : List Condition}

theorem covers_append {entries : List Visited} (covers : visit.Covers clauses done)
    (visited : List.Forall₂ (Visited.ComesFrom clauses) members entries)
    (behind : after.behind = entries.reverse ++ visit.behind) :
    after.Covers clauses (done ++ members) := by
  rw [Covers, behind, List.reverse_append]
  exact List.rel_append (List.forall₂_reverse_iff.mpr visited) covers

theorem come_from_moved {moved : List Condition} (moves : List.Forall₂ Condition.Moves members moved) :
    List.Forall₂ (Visited.ComesFrom clauses) members
      (moved.map fun condition => { condition }) := by
  rw [List.forall₂_map_right_iff]
  exact moves.imp fun _ _ moved => ⟨moved, fun _ absent => by cases absent⟩

theorem covers_leave (covers : visit.Covers clauses done) {moved : List Condition}
    (moves : List.Forall₂ Condition.Moves members moved) :
    (visit.leave moved).Covers clauses (done ++ members) :=
  covers_append covers (come_from_moved moves) rfl

theorem covers_postpone (covers : visit.Covers clauses done) {moved : List Condition}
    (moves : List.Forall₂ Condition.Moves members moved)
    (drawn : moved.map (·.clause) ⊆ clauses) (index : Nat) :
    (visit.postpone moved index).Covers clauses (done ++ members) := by
  refine covers_append covers (forall_modify (come_from_moved moves) index _ ?_) rfl
  intro condition entry comes
  refine ⟨comes.moves, ?_⟩
  intro group present
  cases present
  exact drawn

theorem covers_count (covers : visit.Covers clauses done) {group : Group Condition}
    (moves : List.Forall₂ Condition.Moves members group.members) :
    (visit.count history group).Covers clauses (done ++ members) := by
  apply covers_append covers (come_from_moved ?_) rfl
  rw [group.set_member_at _ (Condition.accrue _)]
  exact forall_modify moves _ _ fun _ _ moved => moved.tail (.accrue _ _)

theorem covers_adjust_behind (covers : visit.Covers clauses done) (increment : Bool) :
    (visit.adjustBehind increment).Covers clauses done := by
  unfold Covers adjustBehind at *
  cases behind : visit.behind with
  | nil =>
      rw [behind] at covers
      exact covers
  | cons entry rest =>
      rw [behind, List.forall₂_cons_right_iff] at covers
      obtain ⟨condition, before, comes, earlier, reversed⟩ := covers
      rw [reversed]
      exact .cons ⟨comes.moves.tail (.adjust _ _), comes.drawn⟩ earlier

/-- Groups of conditions that moved are visited as these conditions, moved further. -/
theorem covers_single (covers : visit.Covers clauses done) {condition : Condition}
    (moves : List.Forall₂ Condition.Moves members [condition])
    (drawn : [condition.clause] ⊆ clauses)
    (visited : visit.single history condition = some after) :
    after.Covers clauses (done ++ members) := by
  unfold single at visited
  cases flag : condition.clause.flag <;> simp only [flag] at visited
  case pauseIf | measuredIf | resetNextIf | remember | addSource | subSource | addAddress =>
    cases visited
    exact covers_leave covers moves
  case resetIf =>
    split at visited
    · cases visited
    · cases visited
      exact covers_leave covers moves
  case addHits | subHits =>
    cases visited
    split
    · exact covers_leave (covers_adjust_behind covers _) moves
    · exact covers_leave covers moves
  case trigger =>
    cases visited
    exact covers_postpone covers moves drawn 0
  case plain | measured | measuredPercent | andNext | orNext =>
    cases visited
    exact covers_count covers moves

theorem covers_chain (covers : visit.Covers clauses done) {group : Group Condition}
    (moves : List.Forall₂ Condition.Moves members group.members)
    (drawn : group.members.map (·.clause) ⊆ clauses) (visited : visit.chain history group = some after) :
    after.Covers clauses (done ++ members) := by
  unfold chain at visited
  cases flag : group.last.clause.flag <;> simp only [flag] at visited
  case pauseIf | measuredIf | resetNextIf =>
    cases visited
    exact covers_leave covers moves
  case resetIf =>
    split at visited
    · cases visited
    · cases visited
      exact covers_leave covers moves
  case trigger =>
    cases visited
    exact covers_postpone covers moves drawn _
  all_goals
    cases visited
    exact covers_count covers moves

theorem moves_refl (conditions : List Condition) :
    List.Forall₂ Condition.Moves conditions conditions :=
  List.forall₂_same.mpr fun _ _ => .refl

theorem moves_of_reset_first (group : Group Condition) :
    List.Forall₂ Condition.Moves group.members (resetFirst group).members := by
  obtain ⟨links, last⟩ := group
  cases links with
  | nil => exact .cons (.single (.reset last)) .nil
  | cons first links => exact .cons (.single (.reset first)) (moves_refl (links ++ [last]))

/-- A group is visited as a single condition or as a chain, after a reset that was due. -/
theorem next_cases {group : Group Condition} (visited : next history visit group = some after) :
    ∃ moved : Group Condition, (moved = group ∨ moved = resetFirst group) ∧
      ((∃ condition, moved = ⟨[], condition⟩ ∧ condition.isLink = false ∧
          single { visit with resetNext := false } history condition = some after) ∨
        moved.isSingle Condition.isLink = false ∧
          chain { visit with resetNext := false } history moved = some after) := by
  obtain ⟨moved, kind, visited⟩ : ∃ moved : Group Condition,
      (moved = group ∨ moved = resetFirst group) ∧
      (if moved.isSingle Condition.isLink then
        single { visit with resetNext := false } history moved.last
      else chain { visit with resetNext := false } history moved) = some after := by
    unfold next at visited
    cases reset : visit.resetNext with
    | true => exact ⟨resetFirst group, Or.inr rfl, by simpa [reset] using visited⟩
    | false => exact ⟨group, Or.inl rfl, by simpa [reset] using visited⟩
  refine ⟨moved, kind, ?_⟩
  cases alone : moved.isSingle Condition.isLink with
  | true =>
      rw [if_pos alone] at visited
      obtain ⟨links, last⟩ := moved
      rw [Group.isSingle, Bool.and_eq_true, List.isEmpty_iff, Bool.not_eq_true'] at alone
      obtain ⟨rfl, unlinked⟩ := alone
      exact Or.inl ⟨last, rfl, unlinked, visited⟩
  | false =>
      rw [if_neg (Bool.eq_false_iff.mp alone)] at visited
      exact Or.inr ⟨rfl, visited⟩

theorem covers_next (covers : visit.Covers clauses done) {group : Group Condition}
    (drawn : group.members.map (·.clause) ⊆ clauses)
    (visited : next history visit group = some after) :
    after.Covers clauses (done ++ group.members) := by
  obtain ⟨moved, kind, visited⟩ := next_cases visited
  have moves : List.Forall₂ Condition.Moves group.members moved.members := by
    rcases kind with rfl | rfl
    · exact moves_refl _
    · exact moves_of_reset_first group
  rw [← Condition.clauses_of_moves moves] at drawn
  have kept : Covers clauses { visit with resetNext := false } done := covers
  rcases visited with ⟨condition, rfl, _, single⟩ | ⟨_, chain⟩
  · exact covers_single kept moves drawn single
  · exact covers_chain kept moves drawn chain

/-- By induction on the groups, a visit covers the conditions that it has come by. -/
theorem covers_fold (groups : List (Group Condition)) (covers : visit.Covers clauses done)
    (drawn : (groups.flatMap Group.members).map (·.clause) ⊆ clauses)
    (visited : groups.foldlM (next history) visit = some after) :
    after.Covers clauses (done ++ groups.flatMap Group.members) := by
  induction groups generalizing visit done with
  | nil =>
      cases visited
      rwa [List.flatMap_nil, List.append_nil]
  | cons group groups ih =>
      rw [List.flatMap_cons, List.map_append, List.append_subset] at drawn
      rw [List.foldlM_cons, Option.bind_eq_bind, Option.bind_eq_some_iff] at visited
      obtain ⟨between, first, rest⟩ := visited
      have covered := ih (covers_next covers drawn.1 first) drawn.2 rest
      rwa [List.append_assoc, ← List.flatMap_cons] at covered

theorem covers_all {achievement : Achievement} (visited : all history achievement = some visit) :
    List.Forall₂ (Visited.ComesFrom (achievement.conditions.map (·.clause)))
      achievement.conditions visit.behind.reverse := by
  have split := Group.flatMap_members_split Condition.isLink achievement.conditions
  have start : Covers (achievement.conditions.map (·.clause))
      { remembered := achievement.remembered } [] := .nil
  have covered := covers_fold (Group.split Condition.isLink achievement.conditions) start
    (by rw [split]; exact fun _ => id) visited
  rw [List.nil_append, split, Covers, ← List.forall₂_reverse_iff, List.reverse_reverse] at covered
  exact covered

end Visit

namespace Achievement

variable {history : History} {achievement : Achievement}

theorem moves_of_conclude {visit : Visit} (visited : Visit.all history achievement = some visit) :
    List.Forall₂ Condition.Moves achievement.conditions
      (achievement.conclude history visit).1.conditions := by
  have covered := Visit.covers_all visited
  have settled : List.Forall₂ Condition.Moves achievement.conditions
      (visit.behind.reverse.map (Visited.settle (visit.sight history))) := by
    rw [List.forall₂_map_right_iff]
    refine covered.imp fun condition entry comes => ?_
    unfold Visited.settle
    split
    · exact comes.moves.tail (.accrue _ _)
    · exact comes.moves
  have unsettled : List.Forall₂ Condition.Moves achievement.conditions
      (visit.behind.reverse.map Visited.condition) := by
    rw [List.forall₂_map_right_iff]
    exact covered.imp fun _ _ comes => comes.moves
  unfold conclude
  simp only
  split <;> (simp only; split <;> assumption)

/-- What was loaded. -/
def entry (achievement : Achievement) : String × String :=
  (achievement.id, achievement.formula)

def clauses (achievement : Achievement) : List Clause :=
  achievement.conditions.map (·.clause)

theorem clauses_of_fresh (id formula : String) (clauses : List Clause) :
    (fresh id formula clauses).clauses = clauses :=
  List.map_map.trans (List.map_id clauses)

theorem entry_of_step (history : History) (achievement : Achievement) :
    (achievement.step history).1.entry = achievement.entry := by
  unfold step
  split
  · rfl
  split
  · rfl
  split
  · rfl
  · unfold conclude
    simp only
    split <;> rfl

/-- A frame keeps the conditions of an achievement, apart from moves of their counters. -/
theorem moves_of_step (history : History) (achievement : Achievement) :
    List.Forall₂ Condition.Moves achievement.conditions
      (achievement.step history).1.conditions := by
  unfold step
  split
  · exact Visit.moves_refl _
  split
  · exact Visit.moves_refl _
  split
  · rw [resetProgress, List.forall₂_map_right_iff]
    exact List.forall₂_same.mpr fun condition _ => .single (.reset condition)
  · rename_i visit visited
    exact moves_of_conclude visited

theorem clauses_of_step (history : History) (achievement : Achievement) :
    (achievement.step history).1.clauses = achievement.clauses :=
  Condition.clauses_of_moves (moves_of_step history achievement)

end Achievement

end Achievements
