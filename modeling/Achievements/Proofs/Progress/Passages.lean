import Achievements.Proofs.Progress.Recorded

/-!
# A visit in parts

A chain divides the conditions of a formula: those before it, its own, and those after it. A visit
comes by them in this order, and of what it has left behind it changes at most the condition that it
passed last. So the visit of the conditions after the chain does not depend on what was left behind
before, as `Visit.fold_atop` says, unless the first of them adds or takes off a hit.
-/

set_option autoImplicit false

namespace Achievements

namespace Group

variable {α : Type} {isLink : α → Bool}

theorem split_cons_of_linked {member : α} {rest : List α} {group : Group α}
    {groups : List (Group α)} (linked : isLink member = true)
    (later : split isLink rest = group :: groups) :
    split isLink (member :: rest) = ⟨member :: group.links, group.last⟩ :: groups := by
  rw [split, linked, later]

theorem split_cons_of_unlinked {member : α} (unlinked : isLink member = false) (rest : List α) :
    split isLink (member :: rest) = ⟨[], member⟩ :: split isLink rest := by
  rw [split, unlinked]

theorem split_ne_nil {list : List α} (listed : list ≠ []) : split isLink list ≠ [] := by
  intro none
  have members := flatMap_members_split isLink list
  rw [none] at members
  exact listed members.symm

/-- Where a list has no link, it can be taken apart before it is partitioned. -/
theorem split_append {left : List α} (closed : ∀ last ∈ left.getLast?, isLink last = false)
    (right : List α) : split isLink (left ++ right) = split isLink left ++ split isLink right := by
  induction left with
  | nil => rfl
  | cons member rest ih =>
      cases linked : isLink member with
      | false =>
          have apart : split isLink (rest ++ right) = split isLink rest ++ split isLink right := by
            cases rest with
            | nil => rfl
            | cons next rest =>
                rw [List.getLast?_cons_cons] at closed
                exact ih closed
          rw [List.cons_append, split_cons_of_unlinked linked, split_cons_of_unlinked linked, apart,
            List.cons_append]
      | true =>
          -- A link is not the last one, so there is a group for it to be joined to.
          cases rest with
          | nil =>
              have unlinked : isLink member = false := closed member rfl
              exact absurd (linked.symm.trans unlinked) Bool.true_eq_false.mp
          | cons next rest =>
              rw [List.getLast?_cons_cons] at closed
              have listed : split isLink (next :: rest) ≠ [] := split_ne_nil (List.cons_ne_nil _ _)
              obtain ⟨group, groups, later⟩ := List.exists_cons_of_ne_nil listed
              have apart : split isLink (next :: rest ++ right) =
                  group :: (groups ++ split isLink right) := by
                rw [ih closed, later, List.cons_append]
              rw [List.cons_append, split_cons_of_linked linked apart,
                split_cons_of_linked linked later, List.cons_append]

/-- A chain is a group by itself if what stands before it is not joined to it. -/
theorem split_around {before : List α} (closed : ∀ last ∈ before.getLast?, isLink last = false)
    {group : Group α} (linked : ∀ member ∈ group.links, isLink member = true)
    (unlinked : isLink group.last = false) (after : List α) :
    split isLink (before ++ group.members ++ after) =
      split isLink before ++ group :: split isLink after := by
  have ends : ∀ last ∈ group.members.getLast?, isLink last = false := by
    intro last member
    rw [members, List.getLast?_concat, Option.mem_some_iff] at member
    rw [← member]
    exact unlinked
  rw [List.append_assoc, split_append closed, split_append ends, members,
    split_of_chain isLink group.links group.last linked unlinked]
  rfl

theorem getLast?_of_split {list : List α} {groups : List (Group α)} {group : Group α}
    (parts : split isLink list = groups ++ [group]) : list.getLast? = some group.last := by
  rw [← flatMap_members_split isLink list, parts, List.flatMap_append, List.flatMap_singleton,
    members, ← List.append_assoc, List.getLast?_concat]

theorem head?_of_split {list : List α} {groups : List (Group α)} {group : Group α}
    (parts : split isLink list = group :: groups) (single : group.links = []) :
    list.head? = some group.last := by
  rw [← flatMap_members_split isLink list, parts, List.flatMap_cons, members, single]
  rfl

end Group

namespace Visit

/-- The visit with more behind it. -/
def atop (earlier : List Visited) (visit : Visit) : Visit :=
  { visit with behind := visit.behind ++ earlier }

variable {history : History} {after : Visit} (visit : Visit) (earlier : List Visited)

theorem leave_atop (conditions : List Condition) :
    (visit.atop earlier).leave conditions = (visit.leave conditions).atop earlier := by
  unfold leave atop
  rw [List.append_assoc]

theorem postpone_atop (conditions : List Condition) (index : Nat) :
    (visit.atop earlier).postpone conditions index =
      (visit.postpone conditions index).atop earlier := by
  unfold postpone atop
  rw [List.append_assoc]

theorem count_atop (group : Group Condition) :
    (visit.atop earlier).count history group = (visit.count history group).atop earlier := by
  simp only [count, leave_atop]
  rfl

theorem adjust_behind_atop (passed : visit.behind ≠ []) (increment : Bool) :
    (visit.atop earlier).adjustBehind increment = (visit.adjustBehind increment).atop earlier := by
  unfold adjustBehind atop
  cases behind : visit.behind with
  | nil => contradiction
  | cons entry rest => rfl

theorem single_atop {condition : Condition}
    (apart : condition.clause.flag.adjusts = true → visit.behind ≠ []) :
    (visit.atop earlier).single history condition =
      (visit.single history condition).map (atop earlier) := by
  have left := visit.leave_atop earlier [condition]
  have truth : ((visit.atop earlier).sight history).holds condition.clause
      (visit.atop earlier).accumulated =
        (visit.sight history).holds condition.clause visit.accumulated := rfl
  unfold single
  cases flag : condition.clause.flag <;> simp only [flag, truth, left]
  case pauseIf | measuredIf | resetNextIf | remember => rfl
  case addSource | subSource | addAddress =>
    unfold accumulate
    rw [left]
    rfl
  case resetIf =>
    split <;> rfl
  case addHits | subHits =>
    rw [flag] at apart
    split
    · rw [adjust_behind_atop visit earlier (apart rfl), leave_atop]
      rfl
    · rw [left]
      rfl
  case trigger =>
    rw [postpone_atop]
    rfl
  case plain | measured | measuredPercent | andNext | orNext =>
    rw [count_atop]
    rfl

theorem chain_atop (group : Group Condition) :
    (visit.atop earlier).chain history group =
      (visit.chain history group).map (atop earlier) := by
  have left := visit.leave_atop earlier group.members
  have truth : ((visit.atop earlier).sight history).allHold (group.members.map (·.clause))
      (visit.atop earlier).accumulated =
        (visit.sight history).allHold (group.members.map (·.clause)) visit.accumulated := rfl
  unfold chain
  cases group.last.clause.flag <;> simp only [truth, left]
  case pauseIf | measuredIf | resetNextIf => rfl
  case resetIf =>
    split <;> rfl
  case trigger =>
    rw [postpone_atop]
    rfl
  all_goals
    rw [count_atop]
    rfl

variable {visit}

/-- Does a group start with a condition that changes the hits of the one just behind? -/
def adjustsBehind (group : Group Condition) : Bool :=
  group.links.isEmpty && group.last.clause.flag.adjusts

theorem adjusts_behind_of_reset_first (group : Group Condition) :
    adjustsBehind (resetFirst group) = adjustsBehind group := by
  obtain ⟨links, last⟩ := group
  cases links <;> rfl

theorem next_atop {group : Group Condition}
    (apart : adjustsBehind group = true → visit.behind ≠ []) :
    next history (visit.atop earlier) group = (next history visit group).map (atop earlier) := by
  obtain ⟨moved, same, kept⟩ : ∃ moved : Group Condition,
      (if visit.resetNext then resetFirst group else group) = moved ∧
        adjustsBehind moved = adjustsBehind group := by
    refine ⟨_, rfl, ?_⟩
    split
    · exact adjusts_behind_of_reset_first group
    · rfl
  have resetNext : (visit.atop earlier).resetNext = visit.resetNext := rfl
  simp only [next, resetNext, same]
  cases alone : moved.isSingle Condition.isLink with
  | true =>
      rw [Group.isSingle, Bool.and_eq_true] at alone
      have apartToo : moved.last.clause.flag.adjusts = true → visit.behind ≠ [] := by
        intro adjusts
        apply apart
        rw [← kept, adjustsBehind, alone.1, adjusts]
        rfl
      exact single_atop { visit with resetNext := false } earlier apartToo
  | false => exact chain_atop { visit with resetNext := false } earlier moved

/-- Any visit covers the conditions that it has left behind. -/
theorem exists_covers (visit : Visit) (drawn : List Clause) :
    ∃ clauses done, visit.Covers clauses done ∧ drawn ⊆ clauses := by
  let put : Visited → List Clause := fun entry => entry.postponed.elim [] (·.clauses)
  refine ⟨drawn ++ visit.behind.flatMap put, (visit.behind.map (·.condition)).reverse, ?_,
    List.subset_append_left _ _⟩
  rw [Covers, List.reverse_reverse, List.forall₂_map_left_iff, List.forall₂_same]
  intro entry member
  refine ⟨.refl, ?_⟩
  intro group postponed clause inside
  refine List.mem_append_right _ (List.mem_flatMap.mpr ⟨entry, member, ?_⟩)
  simp only [put, Option.mem_def.mp postponed]
  exact inside

theorem behind_ne_nil_of_next {group : Group Condition}
    (visited : next history visit group = some after) : after.behind ≠ [] := by
  obtain ⟨clauses, done, covers, drawn⟩ := visit.exists_covers (group.members.map (·.clause))
  have lengths := (covers_next covers drawn visited).length_eq
  intro none
  rw [none] at lengths
  simp [Group.members] at lengths

/-- By induction on the groups, a visit goes on as it does with less behind it. -/
theorem fold_atop {groups : List (Group Condition)}
    (apart : ∀ group ∈ groups.head?, adjustsBehind group = true → visit.behind ≠ []) :
    groups.foldlM (next history) (visit.atop earlier) =
      (groups.foldlM (next history) visit).map (atop earlier) := by
  induction groups generalizing visit with
  | nil => rfl
  | cons group groups ih =>
      rw [List.foldlM_cons, List.foldlM_cons, next_atop earlier (apart group rfl)]
      cases first : next history visit group with
      | none => rfl
      | some between => exact ih fun _ _ _ => behind_ne_nil_of_next first

/-- A clause outside any chain is visited by itself, after a reset that was due. -/
theorem next_of_unlinked (history : History) (visit : Visit) {condition : Condition}
    (unlinked : condition.clause.flag.isLink = false) :
    next history visit ⟨[], condition⟩ = single { visit with resetNext := false } history
      (if visit.resetNext then condition.reset else condition) := by
  have alone : Group.isSingle Condition.isLink ⟨[], condition⟩ = true := by
    rw [Group.isSingle, Condition.isLink, unlinked]
    rfl
  have aloneToo : Group.isSingle Condition.isLink ⟨[], condition.reset⟩ = true := alone
  unfold next
  cases visit.resetNext with
  | true => simp only [resetFirst, if_true, aloneToo]
  | false => simp only [Bool.false_eq_true, if_false, alone, if_true]

/-- A clause that adds or takes off a hit does so to whatever condition is just behind. -/
theorem next_onto (history : History) {group : Group Condition} (nothing : visit.behind = [])
    (adjusts : adjustsBehind group = true) :
    ∃ (after : Visit) (change : Visited → Visited), after.behind ≠ [] ∧
      (∀ entry, (change entry).postponed = entry.postponed) ∧
      ∀ entry earlier, next history (visit.atop (entry :: earlier)) group =
        some (after.atop (change entry :: earlier)) := by
  obtain ⟨links, condition⟩ := group
  rw [adjustsBehind, Bool.and_eq_true, List.isEmpty_iff] at adjusts
  obtain ⟨rfl, adjusts⟩ := adjusts
  have kind : condition.clause.flag = .addHits ∨ condition.clause.flag = .subHits := by
    cases flag : condition.clause.flag <;> rw [flag] at adjusts <;>
      first | exact Or.inl rfl | exact Or.inr rfl | cases adjusts
  have unlinked : condition.clause.flag.isLink = false := by
    rcases kind with flag | flag <;> rw [flag] <;> rfl
  let moved := if visit.resetNext then condition.reset else condition
  have clause : moved.clause = condition.clause := by
    unfold moved
    split <;> rfl
  let truth := (visit.sight history).holds condition.clause visit.accumulated
  let adjust : Visited → Visited := fun entry =>
    { entry with condition := entry.condition.adjust (condition.clause.flag == .addHits) }
  refine ⟨{ visit with resetNext := false }.leave [moved],
    fun entry => if truth then adjust entry else entry, List.cons_ne_nil _ _, ?_, ?_⟩
  · intro entry
    split <;> rfl
  · intro entry earlier
    let onto : Visit := { visit.atop (entry :: earlier) with resetNext := false }
    have adjusted : onto.adjustBehind (condition.clause.flag == .addHits) =
        { visit with resetNext := false }.atop (adjust entry :: earlier) := by
      simp only [onto, adjustBehind, atop, nothing]
      rfl
    have holds : (onto.sight history).holds condition.clause onto.accumulated = truth := rfl
    rw [next_of_unlinked history _ unlinked]
    change single onto history moved = _
    unfold single
    rcases kind with flag | flag <;> rw [flag] at adjusted <;>
      simp only [clause, flag, holds, adjusted] <;> split <;>
      exact congrArg some (leave_atop { visit with resetNext := false } _ _)

/-- Of what is behind, a visit changes at most the condition passed last, in a way that does not
depend on what else is behind. -/
theorem fold_onto (history : History) (groups : List (Group Condition))
    (nothing : visit.behind = []) :
    (∀ entry earlier, groups.foldlM (next history) (visit.atop (entry :: earlier)) = none) ∨
      ∃ (after : Visit) (change : Visited → Visited),
        (∀ entry, (change entry).postponed = entry.postponed) ∧
        ∀ entry earlier, groups.foldlM (next history) (visit.atop (entry :: earlier)) =
          some (after.atop (change entry :: earlier)) := by
  -- Only a first group that adds or takes off a hit can reach what is behind.
  obtain ⟨middle, rest, change, keeps, apart, goes⟩ : ∃ (middle : Visit)
      (rest : List (Group Condition)) (change : Visited → Visited),
      (∀ entry, (change entry).postponed = entry.postponed) ∧
      (∀ group ∈ rest.head?, adjustsBehind group = true → middle.behind ≠ []) ∧
      ∀ entry earlier, groups.foldlM (next history) (visit.atop (entry :: earlier)) =
        rest.foldlM (next history) (middle.atop (change entry :: earlier)) := by
    by_cases apart : ∀ group ∈ groups.head?, adjustsBehind group = true → visit.behind ≠ []
    · exact ⟨visit, groups, id, fun _ => rfl, apart, fun _ _ => rfl⟩
    · push Not at apart
      obtain ⟨group, first, adjusts, -⟩ := apart
      obtain ⟨rest, rfl⟩ := List.head?_eq_some_iff.mp first
      obtain ⟨middle, change, filled, keeps, step⟩ := next_onto history nothing adjusts
      refine ⟨middle, rest, change, keeps, fun _ _ _ => filled, ?_⟩
      intro entry earlier
      rw [List.foldlM_cons, step]
      rfl
  cases ended : rest.foldlM (next history) middle with
  | none =>
      left
      intro entry earlier
      rw [goes, fold_atop _ apart, ended]
      rfl
  | some after =>
      refine Or.inr ⟨after, change, keeps, ?_⟩
      intro entry earlier
      rw [goes, fold_atop _ apart, ended]
      rfl

/-- A visit ends where it started, or with the group of the last condition. -/
theorem fold_cases {conditions : List Condition}
    (visited : (Group.split Condition.isLink conditions).foldlM (next history) visit = some after) :
    after = visit ∨ ∃ between group, conditions.getLast? = some group.last ∧
      next history between group = some after := by
  rcases List.eq_nil_or_concat (Group.split Condition.isLink conditions) with none |
    ⟨groups, group, parts⟩
  · rw [none] at visited
    cases visited
    exact Or.inl rfl
  · rw [List.concat_eq_append] at parts
    rw [parts, List.foldlM_append, Option.bind_eq_bind, Option.bind_eq_some_iff] at visited
    obtain ⟨between, -, final⟩ := visited
    rw [List.foldlM_cons, Option.bind_eq_bind, Option.bind_eq_some_iff] at final
    obtain ⟨reached, step, same⟩ := final
    cases same
    exact Or.inr ⟨between, group, Group.getLast?_of_split parts, step⟩

/-- Nothing is due to start over after conditions the last of which does not make it. -/
theorem reset_next_of_fold {conditions : List Condition} (calm : visit.resetNext = false)
    (quiet : ∀ last ∈ conditions.getLast?, last.clause.flag ≠ .resetNextIf)
    (visited : (Group.split Condition.isLink conditions).foldlM (next history) visit = some after) :
    after.resetNext = false := by
  rcases fold_cases visited with rfl | ⟨between, group, last, step⟩
  · exact calm
  · exact (left_over_of_next step).1 (quiet group.last last)

/-- Nothing is accumulated after conditions the last of which is no accumulator. -/
theorem accumulated_of_fold {conditions : List Condition} (none : visit.accumulated = {})
    (direct : ∀ last ∈ conditions.getLast?, last.clause.flag.isAccumulator = false)
    (visited : (Group.split Condition.isLink conditions).foldlM (next history) visit = some after) :
    after.accumulated = {} := by
  rcases fold_cases visited with rfl | ⟨between, group, last, step⟩
  · exact none
  · exact (left_over_of_next step).2 (direct group.last last)

/-- A visit leaves the conditions behind that it was given, with other counters. -/
theorem clauses_of_fold {groups : List (Group Condition)} (start : visit.behind = [])
    (visited : groups.foldlM (next history) visit = some after) :
    after.behind.reverse.map Visited.clause = (groups.flatMap Group.members).map (·.clause) := by
  have covers : visit.Covers ((groups.flatMap Group.members).map (·.clause)) [] := by
    rw [Covers, start]
    exact .nil
  have covered := covers_fold groups covers (fun _ => id) visited
  rw [List.nil_append, Covers, ← List.forall₂_reverse_iff, List.reverse_reverse] at covered
  have moves : List.Forall₂ Condition.Moves (groups.flatMap Group.members)
      (after.behind.reverse.map (·.condition)) :=
    List.forall₂_map_right_iff.mpr (covered.imp fun _ _ comes => comes.moves)
  have clauses := Condition.clauses_of_moves moves
  rwa [List.map_map] at clauses

end Visit

namespace Achievement

variable (achievement : Achievement) (history : History) (rest : Visit)
  (middle earlier : List Visited)

theorem conditions_of_conclude_atop :
    (achievement.conclude history (rest.atop (middle ++ earlier))).1.conditions =
      earlier.reverse.map (outcome history rest) ++ middle.reverse.map (outcome history rest) ++
        rest.behind.reverse.map (outcome history rest) := by
  rw [conditions_of_conclude, Visit.atop, List.reverse_append, List.reverse_append, List.map_append,
    List.map_append]
  rfl

theorem unlocks_of_conclude_atop :
    (achievement.conclude history (rest.atop (middle ++ earlier))).2 = true ↔
      rest.allMet = true ∧
        (∀ entry ∈ earlier.reverse, entry.blocks (rest.sight history) = false) ∧
        (∀ entry ∈ middle.reverse, entry.blocks (rest.sight history) = false) ∧
        ∀ entry ∈ rest.behind.reverse, entry.blocks (rest.sight history) = false := by
  rw [unlocks_of_conclude, Visit.atop, List.reverse_append, List.reverse_append]
  simp only [List.forall_mem_append, and_assoc]
  rfl

end Achievement

end Achievements
