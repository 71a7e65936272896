import Achievements.Proofs.Progress.Alike

/-!
# Where the target of a chain stands

The first member of a chain with a target counts for the whole chain, and its truth is that of the
chain, so it does not matter which member it is: `Achievement.target_may_move` compares a formula
with the one in which the only target of a chain was given to another member. On every frame both
unlock or not, and they have the same counters, but that the counter of the chain stands elsewhere.
What is compared is a frame of each, given that the chains count alike before it.
-/

set_option autoImplicit false

namespace Achievements

namespace Group

/-- The chain with the target of one member given to another one. -/
def moveTarget (place other : Nat) (group : Group Clause) : Group Clause :=
  (group.modify place Clause.untargeted).modify other
    (Clause.withTarget (group.memberAt place).target)

theorem untargeted_move_target (place other : Nat) (group : Group Clause) :
    (group.moveTarget place other).map Clause.untargeted = group.map Clause.untargeted := by
  rw [moveTarget, map_modify Clause.untargeted (Clause.withTarget _) fun _ => rfl,
    map_modify Clause.untargeted Clause.untargeted fun _ => rfl]

/-- The only member that asks to count does so. -/
theorem counting_index_of_only {α : Type} {asks : α → Bool} {group : Group α} {place : Nat}
    (here : place < group.members.length)
    (only : ∀ index member, group.members[index]? = some member →
      (asks member = true ↔ index = place)) : group.countingIndex asks = place := by
  have found : group.members.findIdx? asks = some place := by
    rw [List.findIdx?_eq_some_iff_getElem]
    refine ⟨here, (only place _ (List.getElem?_eq_getElem here)).mpr rfl, ?_⟩
    intro index earlier asked
    have inside := List.getElem?_eq_getElem (Nat.lt_trans earlier here)
    exact Nat.ne_of_lt earlier ((only index _ inside).mp asked)
  rw [countingIndex, found]
  rfl

variable {group : Group Clause} {place other : Nat}

/-- The place of the only target of a chain. -/
structure OnlyTarget (group : Group Clause) (place : Nat) : Prop where
  inside : place < group.members.length
  only : ∀ index clause, group.members[index]? = some clause →
    (clause.hasTarget = true ↔ index = place)

theorem OnlyTarget.counting (only : group.OnlyTarget place) :
    group.counting Clause.hasTarget = group.memberAt place := by
  rw [Group.counting, counting_index_of_only only.inside only.only]

theorem OnlyTarget.move_target (only : group.OnlyTarget place)
    (there : other < group.members.length) : (group.moveTarget place other).OnlyTarget other := by
  have inside : other < (group.modify place Clause.untargeted).members.length := by
    rwa [members_modify _ only.inside, List.length_modify]
  have members : (group.moveTarget place other).members =
      (group.members.modify place Clause.untargeted).modify other
        (Clause.withTarget (group.memberAt place).target) := by
    rw [moveTarget, members_modify _ inside, members_modify _ only.inside]
  have positive : (group.memberAt place).hasTarget = true :=
    (only.only place _ (group.getElem?_members_of_lt only.inside)).mpr rfl
  refine ⟨?_, ?_⟩
  · rwa [members, List.length_modify, List.length_modify]
  · intro index clause found
    rw [members, List.getElem?_modify, List.getElem?_modify, Option.map_eq_map, Option.map_eq_map,
      Option.map_map, Option.map_eq_some_iff] at found
    obtain ⟨before, listed, rfl⟩ := found
    have asked := only.only index before listed
    by_cases moved : other = index
    · rw [Function.comp_apply, if_pos moved]
      exact iff_of_true positive moved.symm
    · rw [Function.comp_apply, if_neg moved]
      refine iff_of_false ?_ fun same => moved same.symm
      by_cases cleared : place = index
      · rw [if_pos cleared]
        exact Bool.false_ne_true
      · rw [if_neg cleared]
        exact fun asks => cleared (asked.mp asks).symm

end Group

/-- A formula with a chain that is closed by a clause of its own or by a trigger, and that its
neighbours leave alone. -/
structure Enclosed where
  before : List Clause
  chain : Group Clause
  after : List Clause
  joined : chain.links ≠ []
  linked : ∀ clause ∈ chain.links, clause.flag.isLink = true
  closed : chain.last.flag = .plain ∨ chain.last.flag = .trigger
  /-- The chain is not part of a longer one. -/
  apart : ∀ clause ∈ before.getLast?, clause.flag.isLink = false
  notReset : ∀ clause ∈ before.getLast?, clause.flag ≠ .resetNextIf
  notAdjusted : ∀ clause ∈ after.head?, clause.flag.adjusts = false

namespace Enclosed

section

variable {formula : Enclosed} {before after : List Condition} {group : Group Condition}

/-- Conditions of the formula are visited in the same groups, whatever the targets in the chain. -/
theorem split_of_untargeted (clauses : before.map (·.clause) = formula.before)
    (same : group.clauses.map Clause.untargeted = formula.chain.map Clause.untargeted)
    (after : List Condition) :
    Group.split Condition.isLink (before ++ group.members ++ after) =
      Group.split Condition.isLink before ++ group :: Group.split Condition.isLink after := by
  have lasts : group.last.clause.flag = formula.chain.last.flag :=
    congrArg (fun group : Group Clause => group.last.flag) same
  have links : group.clauses.links.map Clause.untargeted =
      formula.chain.links.map Clause.untargeted := congrArg Group.links same
  apply Group.split_around
  · intro last member
    apply formula.apart
    rw [← clauses, List.getLast?_map, Option.mem_def.mp member]
    rfl
  · -- A link is one by its flag, which it shares with a clause of the formula.
    intro link member
    have inside : link.clause.untargeted ∈ group.clauses.links.map Clause.untargeted :=
      List.mem_map_of_mem (List.mem_map_of_mem member)
    rw [links, List.mem_map] at inside
    obtain ⟨clause, listed, untargeted⟩ := inside
    have flag : clause.untargeted.flag = link.clause.untargeted.flag :=
      congrArg Clause.flag untargeted
    exact (congrArg Flag.isLink flag).symm.trans (formula.linked clause listed)
  · change group.last.clause.flag.isLink = false
    rw [lasts]
    rcases formula.closed with plain | trigger
    · rw [plain]
      rfl
    · rw [trigger]
      rfl

theorem quiet (clauses : before.map (·.clause) = formula.before) :
    ∀ last ∈ before.getLast?, last.clause.flag ≠ .resetNextIf := by
  intro last member
  apply formula.notReset
  rw [← clauses, List.getLast?_map, Option.mem_def.mp member]
  rfl

/-- What follows the chain does not touch it. -/
theorem unadjusted (clauses : after.map (·.clause) = formula.after) {visit : Visit} :
    ∀ group ∈ (Group.split Condition.isLink after).head?,
      Visit.adjustsBehind group = true → visit.behind ≠ [] := by
  intro group member adjusts
  obtain ⟨groups, parts⟩ := List.head?_eq_some_iff.mp member
  rw [Visit.adjustsBehind, Bool.and_eq_true, List.isEmpty_iff] at adjusts
  have unadjusted : group.last.clause.flag.adjusts = false := by
    apply formula.notAdjusted
    rw [← clauses, List.head?_map, Group.head?_of_split parts adjusts.1]
    rfl
  exact absurd (adjusts.2.symm.trans unadjusted) Bool.true_eq_false.mp

end

/-- Conditions of a formula and of the one in which other clauses stand for the chain. They differ
in the chain only, and both chains count alike. -/
structure Differ (formula : Enclosed) (moved : Group Clause) (before : List Condition)
    (block other : Group Condition) (after : List Condition) : Prop where
  ofBefore : before.map (·.clause) = formula.before
  ofBlock : block.clauses = formula.chain
  ofOther : other.clauses = moved
  ofAfter : after.map (·.clause) = formula.after
  like : block.CountsLike other

namespace Differ

variable {formula : Enclosed} {moved : Group Clause} {before after : List Condition}
  {block other : Group Condition} {history : History}
  (differ : formula.Differ moved before block other after)
include differ

theorem reset : formula.Differ moved (before.map Condition.reset) (block.map Condition.reset)
    (other.map Condition.reset) (after.map Condition.reset) where
  ofBefore := by
    rw [List.map_map]
    exact differ.ofBefore
  ofBlock := (Group.map_map _ _ block).trans differ.ofBlock
  ofOther := (Group.map_map _ _ other).trans differ.ofOther
  ofAfter := by
    rw [List.map_map]
    exact differ.ofAfter
  like := differ.like.reset

theorem closed : block.last.clause.flag = .plain ∨ block.last.clause.flag = .trigger := by
  have closed := formula.closed
  rwa [← differ.ofBlock] at closed

theorem chained : block.isSingle Condition.isLink = false := by
  have joined := formula.joined
  rw [← differ.ofBlock] at joined
  rw [← Group.is_single_of_clauses, Group.isSingle, List.isEmpty_eq_false_iff.mpr joined]
  rfl

theorem untargeted : (before ++ block.members ++ after).map (·.clause.untargeted) =
    (before ++ other.members ++ after).map (·.clause.untargeted) := by
  have members := differ.like.untargeted
  rw [List.map_map, List.map_map] at members
  simp only [List.map_append]
  exact congrArg (_ ++ · ++ _) members

end Differ

/-- What two visits have left behind of such conditions. -/
structure LeftBehind (formula : Enclosed) (moved : Group Clause) (earlier : List Visited)
    (entries others : Group Visited) (later : List Visited) : Prop where
  ofBefore : earlier.map Visited.clause = formula.before
  ofBlock : entries.map Visited.clause = formula.chain
  ofOther : others.map Visited.clause = moved
  ofAfter : later.map Visited.clause = formula.after
  like : entries.StandsLike others

theorem LeftBehind.outcomes {formula : Enclosed} {moved : Group Clause}
    {earlier later : List Visited} {entries others : Group Visited}
    (left : formula.LeftBehind moved earlier entries others later)
    (history : History) (visit : Visit) :
    let outcome := Achievement.outcome history visit
    formula.Differ moved (earlier.map outcome) (entries.map outcome) (others.map outcome)
      (later.map outcome) := by
  have kept : ∀ list : List Visited, (list.map (Achievement.outcome history visit)).map
      (·.clause) = list.map Visited.clause := by
    intro list
    rw [List.map_map]
    exact List.map_congr_left fun entry _ => Achievement.clause_outcome history visit entry
  exact ⟨(kept earlier).trans left.ofBefore, Group.clauses_of_outcome.trans left.ofBlock,
    Group.clauses_of_outcome.trans left.ofOther, (kept later).trans left.ofAfter,
    left.like.outcomes history visit⟩

/-- Two visits, which a reset ends both, or which end with the same but for the chain. -/
theorem Differ.visits {formula : Enclosed} {moved : Group Clause}
    {before after : List Condition} {block other : Group Condition}
    (differ : formula.Differ moved before block other after) (history : History)
    (start : Visit) (calm : start.resetNext = false) (none : start.behind = []) :
    let visitOf := fun conditions : List Condition =>
      (Group.split Condition.isLink conditions).foldlM (Visit.next history) start
    let first := visitOf (before ++ block.members ++ after)
    let second := visitOf (before ++ other.members ++ after)
    (first = .none ∧ second = .none) ∨
      ∃ (rest : Visit) (earlier : List Visited) (entries others : Group Visited),
        first = some (rest.atop (entries.members.reverse ++ earlier)) ∧
        second = some (rest.atop (others.members.reverse ++ earlier)) ∧
        formula.LeftBehind moved earlier.reverse entries others rest.behind.reverse := by
  intro visitOf first second
  have same := congrArg (Group.map Clause.untargeted) differ.ofBlock
  simp only [first, second, visitOf]
  rw [split_of_untargeted differ.ofBefore same,
    split_of_untargeted differ.ofBefore (differ.like.clauses.symm.trans same),
    List.foldlM_append, List.foldlM_append]
  -- Up to the chain both are one visit, and behind it they differ only in what they left of it.
  cases led : (Group.split Condition.isLink before).foldlM (Visit.next history) start with
  | none => exact Or.inl ⟨rfl, rfl⟩
  | some visit =>
      have quiet := Visit.reset_next_of_fold calm (quiet differ.ofBefore) led
      obtain ⟨middle, entries, others, nothing, one, two, like, ofBlock, ofOther⟩ :=
        Visit.next_of_counts_like history quiet differ.like differ.chained differ.closed
      simp only [Option.bind_eq_bind, Option.bind_some, List.foldlM_cons, one, two]
      rw [Visit.fold_atop _ (unadjusted differ.ofAfter),
        Visit.fold_atop _ (unadjusted differ.ofAfter)]
      cases ended : (Group.split Condition.isLink after).foldlM (Visit.next history) middle with
      | none => exact Or.inl ⟨rfl, rfl⟩
      | some rest =>
          refine Or.inr ⟨rest, visit.behind, entries, others, rfl, rfl, ?_, ?_, ?_, ?_, like⟩
          · rw [Visit.clauses_of_fold none led, Group.flatMap_members_split, differ.ofBefore]
          · rw [ofBlock, differ.ofBlock]
          · rw [ofOther, differ.ofOther]
          · rw [Visit.clauses_of_fold nothing ended, Group.flatMap_members_split, differ.ofAfter]

end Enclosed

namespace Achievement

variable {formula : Enclosed} {moved : Group Clause} {first second : Achievement}
  {history : History}

theorem gate_open_of_clauses (history : History) (achievement : Achievement) :
    achievement.gateOpen history = (achievement.clauses.filter fun clause =>
      clause.flag == .measuredIf).all fun clause =>
        Sight.holds ⟨history, achievement.remembered⟩ clause {} := by
  rw [clauses, List.filter_map, List.all_map]
  rfl

theorem measure_of_conclude (achievement : Achievement) (history : History) (visit : Visit) :
    (achievement.conclude history visit).1.measure =
      if (achievement.conclude history visit).2 then achievement.measure
      else visit.tally.publish (achievement.gateOpen history) := by
  unfold conclude
  simp only
  split <;> rfl

/-- Two achievements at the same point of play, one of which has other clauses for the chain. -/
structure Parallel (formula : Enclosed) (moved : Group Clause) (first second : Achievement) :
    Prop where
  conditions : ∃ before block other after, formula.Differ moved before block other after ∧
    first.conditions = before ++ block.members ++ after ∧
    second.conditions = before ++ other.members ++ after
  unlocked : first.unlocked = second.unlocked
  primed : first.primed = second.primed
  remembered : first.remembered = second.remembered
  measure : first.measure = second.measure

namespace Parallel

variable (parallel : Parallel formula moved first second)
include parallel

theorem untargeted :
    first.clauses.map Clause.untargeted = second.clauses.map Clause.untargeted := by
  obtain ⟨before, block, other, after, differ, one, two⟩ := parallel.conditions
  rw [clauses, clauses, List.map_map, List.map_map, one, two]
  exact differ.untargeted

theorem is_paused (history : History) : first.isPaused history = second.isPaused history := by
  have blind : ∀ achievement : Achievement, achievement.isPaused history =
      (achievement.clauses.map Clause.untargeted).any fun clause =>
        clause.flag == .pauseIf &&
          Sight.holds ⟨history, achievement.remembered⟩ clause {} := by
    intro achievement
    rw [is_paused_of_clauses, List.any_map]
    rfl
  rw [blind, blind, parallel.untargeted, parallel.remembered]

theorem gate_open (history : History) : first.gateOpen history = second.gateOpen history := by
  have blind : ∀ achievement : Achievement, achievement.gateOpen history =
      ((achievement.clauses.map Clause.untargeted).filter fun clause =>
        clause.flag == .measuredIf).all fun clause =>
          Sight.holds ⟨history, achievement.remembered⟩ clause {} := by
    intro achievement
    rw [gate_open_of_clauses, List.filter_map, List.all_map]
    rfl
  rw [blind, blind, parallel.untargeted, parallel.remembered]

/-- The two are at the same point again after visits that ended alike. -/
theorem conclude {rest : Visit} {earlier : List Visited} {entries others : Group Visited}
    (left : formula.LeftBehind moved earlier.reverse entries others rest.behind.reverse)
    (history : History) :
    let one := first.conclude history (rest.atop (entries.members.reverse ++ earlier))
    let two := second.conclude history (rest.atop (others.members.reverse ++ earlier))
    one.2 = two.2 ∧ Parallel formula moved one.1 two.1 := by
  intro one two
  have reports : one.2 = two.2 := by
    rw [Bool.eq_iff_iff, unlocks_of_conclude_atop, unlocks_of_conclude_atop, List.reverse_reverse,
      List.reverse_reverse]
    exact and_congr_right fun _ => and_congr_right fun _ =>
      and_congr_left fun _ => left.like.unblocked _
  have conditions : ∀ (achievement : Achievement) (block : Group Visited),
      (achievement.conclude history
        (rest.atop (block.members.reverse ++ earlier))).1.conditions =
          earlier.reverse.map (outcome history rest) ++
            (block.map (outcome history rest)).members ++
              rest.behind.reverse.map (outcome history rest) := by
    intro achievement block
    rw [conditions_of_conclude_atop, List.reverse_reverse, Group.members_map]
  refine ⟨reports, ?_⟩
  exact {
    conditions := ⟨_, _, _, _, left.outcomes history rest, conditions first entries,
      conditions second others⟩
    unlocked := by
      rw [unlocked_after_conclude, unlocked_after_conclude, parallel.unlocked]
      exact congrArg (· || _) reports
    primed := by
      rw [primed_of_conclude, primed_of_conclude]
      rfl
    remembered := by
      rw [remembered_of_conclude, remembered_of_conclude]
      rfl
    measure := by
      rw [measure_of_conclude, measure_of_conclude, parallel.measure, parallel.gate_open history]
      change (if one.2 then _ else _) = _
      rw [reports]
      rfl }

theorem reset_progress : Parallel formula moved first.resetProgress second.resetProgress := by
  obtain ⟨before, block, other, after, differ, one, two⟩ := parallel.conditions
  have reset : ∀ group : Group Condition,
      (before ++ group.members ++ after).map Condition.reset = before.map Condition.reset ++
        (group.map Condition.reset).members ++ after.map Condition.reset := by
    intro group
    rw [List.map_append, List.map_append, Group.members_map]
  exact ⟨⟨_, _, _, _, differ.reset, (congrArg _ one).trans (reset block),
    (congrArg _ two).trans (reset other)⟩, parallel.unlocked, rfl, rfl, parallel.measure⟩

/-- One frame reports the same for both, and they are at the same point after it. -/
theorem step (history : History) :
    (first.step history).2 = (second.step history).2 ∧
      Parallel formula moved (first.step history).1 (second.step history).1 := by
  let related : Achievement × Bool → Achievement × Bool → Prop := fun one two =>
    one.2 = two.2 ∧ Parallel formula moved one.1 two.1
  change related (first.step history) (second.step history)
  apply step_related parallel.unlocked (parallel.is_paused history)
  · exact fun _ => ⟨rfl, parallel⟩
  · exact fun _ => ⟨rfl, parallel.conditions, parallel.unlocked, rfl, parallel.remembered,
      parallel.measure⟩
  · intro _ _
    obtain ⟨before, block, other, after, differ, one, two⟩ := parallel.conditions
    have visits := differ.visits history { remembered := first.remembered } rfl rfl
    simp only [← one, ← two] at visits
    rcases visits with ⟨thrown, thrownToo⟩ | ⟨rest, earlier, entries, others, all, allToo, left⟩
    · rw [parallel.remembered] at thrownToo
      exact Or.inl ⟨thrown, thrownToo, rfl, parallel.reset_progress⟩
    · rw [parallel.remembered] at allToo
      exact Or.inr ⟨_, _, all, allToo, parallel.conclude left history⟩

/-- By induction on the frames, they stay so. -/
theorem after (frames : Nat → History) (count : Nat) :
    Parallel formula moved (first.after frames count) (second.after frames count) := by
  induction count with
  | zero => exact parallel
  | succ count ih => exact (ih.step (frames count)).2

/-- The counters of both chains agree, and all other conditions. -/
theorem counters : ∃ counter,
    first.conditions.take formula.before.length = second.conditions.take formula.before.length ∧
    first.conditions.drop (formula.before.length + formula.chain.members.length) =
      second.conditions.drop (formula.before.length + formula.chain.members.length) ∧
    (first.conditions[formula.before.length + formula.chain.countingIndex Clause.hasTarget]?).map
      (·.counter) = some counter ∧
    (second.conditions[formula.before.length + moved.countingIndex Clause.hasTarget]?).map
      (·.counter) = some counter := by
  obtain ⟨before, block, other, after, differ, one, two⟩ := parallel.conditions
  have lengthBefore : formula.before.length = before.length := by
    rw [← differ.ofBefore, List.length_map]
  have length : formula.chain.members.length = block.members.length := by
    rw [← differ.ofBlock, Group.members_of_clauses, List.length_map]
  have lengthOther : formula.chain.members.length = other.members.length := by
    have members := congrArg List.length differ.like.untargeted
    simp only [List.length_map] at members
    exact length.trans members
  have counted : ∀ (group : Group Condition) (clauses : Group Clause), group.clauses = clauses →
      ((before ++ group.members ++ after)[before.length +
        clauses.countingIndex Clause.hasTarget]?).map (·.counter) =
          some (group.counting Condition.hasTarget).counter := by
    intro group clauses same
    have place : clauses.countingIndex Clause.hasTarget =
        group.countingIndex Condition.hasTarget := by
      rw [← same]
      exact Group.counting_index_map _ _ _
    have below := group.counting_index_lt Condition.hasTarget
    rw [place, List.append_assoc, List.getElem?_append_right (Nat.le_add_right _ _),
      Nat.add_sub_cancel_left, List.getElem?_append_left below, group.getElem?_members_of_lt below]
    rfl
  refine ⟨(block.counting Condition.hasTarget).counter, ?_, ?_, ?_, ?_⟩
  · rw [one, two, lengthBefore, List.append_assoc, List.append_assoc, List.take_left,
      List.take_left]
  · have dropped : ∀ group : Group Condition,
        formula.chain.members.length = group.members.length →
        (before ++ group.members ++ after).drop
          (formula.before.length + formula.chain.members.length) = after := by
      intro group length
      rw [lengthBefore, length, ← List.length_append, List.drop_left]
    rw [one, two, dropped block length, dropped other lengthOther]
  · rw [one, lengthBefore]
    exact counted block formula.chain differ.ofBlock
  · rw [two, lengthBefore, differ.like.counting.counter]
    exact counted other moved differ.ofOther

end Parallel

/-- At power-on, all that matters of the targets in the chain is the one of the member that
counts. -/
theorem parallel_of_fresh (formula : Enclosed) (moved : Group Clause)
    (same : formula.chain.map Clause.untargeted = moved.map Clause.untargeted)
    (target : (formula.chain.counting Clause.hasTarget).target =
      (moved.counting Clause.hasTarget).target) (id text movedText : String) :
    Parallel formula moved
      (fresh id text (formula.before ++ formula.chain.members ++ formula.after))
      (fresh id movedText (formula.before ++ moved.members ++ formula.after)) := by
  have clauses : ∀ list : List Clause, (list.map Condition.fresh).map (·.clause) = list := by
    intro list
    rw [List.map_map]
    exact List.map_id list
  have clausesOf : ∀ group : Group Clause, (group.map Condition.fresh).clauses = group := by
    intro group
    obtain ⟨links, last⟩ := group
    exact congrArg (Group.mk · last) (clauses links)
  have counting : ∀ group : Group Clause,
      (group.map Condition.fresh).counting Condition.hasTarget =
        .fresh (group.counting Clause.hasTarget) := fun group => Group.counting_map _ _ group
  have like : (formula.chain.map Condition.fresh).CountsLike (moved.map Condition.fresh) := by
    refine ⟨?_, ?_⟩
    · rw [clausesOf, clausesOf, same]
    · rw [counting, counting]
      exact ⟨target, rfl⟩
  have listed : ∀ group : Group Clause,
      (formula.before ++ group.members ++ formula.after).map Condition.fresh =
        formula.before.map Condition.fresh ++ (group.map Condition.fresh).members ++
          formula.after.map Condition.fresh := by
    intro group
    rw [List.map_append, List.map_append, Group.members_map]
  exact ⟨⟨_, _, _, _, ⟨clauses _, clausesOf _, clausesOf _, clauses _, like⟩, listed _, listed _⟩,
    rfl, rfl, rfl, rfl⟩

/-- Given the only target of a chain to another of its members, a formula is played in the same way
from power-on: it unlocks on the same frames, it is primed, remembers and publishes the same, and
outside the chain all conditions are the same after every frame. So is the counter of the member
with the target. The chain must be closed by a clause of its own or by a trigger; the clause before
it must not make it start over, nor the one after it add or take off hits. -/
theorem target_may_move (formula : Enclosed) {place other : Nat}
    (only : formula.chain.OnlyTarget place) (there : other < formula.chain.members.length)
    (id text movedText : String) (frames : Nat → History) (frame : Nat) :
    let moved := formula.chain.moveTarget place other
    let first := fresh id text (formula.before ++ formula.chain.members ++ formula.after)
    let second := fresh id movedText (formula.before ++ moved.members ++ formula.after)
    let one := first.after frames frame
    let two := second.after frames frame
    first.unlocksOn frames frame = second.unlocksOn frames frame ∧
      one.unlocked = two.unlocked ∧ one.primed = two.primed ∧ one.remembered = two.remembered ∧
      one.measure = two.measure ∧
      one.conditions.take formula.before.length = two.conditions.take formula.before.length ∧
      one.conditions.drop (formula.before.length + formula.chain.members.length) =
        two.conditions.drop (formula.before.length + formula.chain.members.length) ∧
      ∃ counter,
        (one.conditions[formula.before.length + place]?).map (·.counter) = some counter ∧
        (two.conditions[formula.before.length + other]?).map (·.counter) = some counter := by
  have movedOnly := only.move_target there
  have target : (formula.chain.counting Clause.hasTarget).target =
      ((formula.chain.moveTarget place other).counting Clause.hasTarget).target := by
    rw [only.counting, movedOnly.counting, Group.moveTarget, Group.member_at_modify]
    rfl
  have start := parallel_of_fresh formula (formula.chain.moveTarget place other)
    (formula.chain.untargeted_move_target place other).symm target id text movedText
  have parallel := start.after frames frame
  have counters := parallel.counters
  rw [Group.counting_index_of_only only.inside only.only,
    Group.counting_index_of_only movedOnly.inside movedOnly.only] at counters
  obtain ⟨counter, before, after, here, elsewhere⟩ := counters
  exact ⟨(parallel.step (frames frame)).1, parallel.unlocked, parallel.primed, parallel.remembered,
    parallel.measure, before, after, counter, here, elsewhere⟩

/-- A trigger that two others are joined to, the first of which asks for two hits, between a
measured count and a value that is remembered. -/
def guarded : Enclosed where
  before := [{ byteEquals .measured 1 0 with target := 2 }]
  chain := ⟨[{ byteEquals .andNext 2 0 with target := 2 }, byteEquals .orNext 3 1],
    byteEquals .trigger 4 0⟩
  after := [byteEquals .remember 5 0]
  joined := by decide
  linked := by decide
  closed := by decide
  apart := by decide
  notReset := by decide
  notAdjusted := by decide

theorem guarded_target_may_move :
    guarded.chain.OnlyTarget 0 ∧ 2 < guarded.chain.members.length ∧
      let clauses := guarded.before ++ guarded.chain.members ++ guarded.after
      let moved := guarded.before ++ (guarded.chain.moveTarget 0 2).members ++ guarded.after
      (fresh "a" "f" clauses).unlocksOn (fun _ => zeros) 2 = true ∧
        (fresh "a" "g" moved).unlocksOn (fun _ => zeros) 2 = true := by
  have only : guarded.chain.OnlyTarget 0 := by
    refine ⟨by decide, ?_⟩
    intro index clause found
    match index, found with
    | 0, found | 1, found | 2, found =>
      cases found
      decide
  have there : 2 < guarded.chain.members.length := by decide
  have unlocks : (fresh "a" "f" (guarded.before ++ guarded.chain.members ++
      guarded.after)).unlocksOn (fun _ => zeros) 2 = true := by decide
  have moved := target_may_move guarded only there "a" "f" "g" (fun _ => zeros) 2
  exact ⟨only, there, unlocks, moved.1.symm.trans unlocks⟩

end Achievement

end Achievements
