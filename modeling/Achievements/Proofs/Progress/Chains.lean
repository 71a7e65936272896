import Achievements.Proofs.Progress.Moves

/-!
# Hits of a chain

A formula that is one chain has one counter that moves: that of the first member with a target, or
of the last one if no member has any. `Chain.Follows` says where it stands: its hits are the frames
on which the chain held, up to its own target, whatever the targets of the other members are.
-/

set_option autoImplicit false

namespace Achievements

namespace Group

theorem split_of_chain {α : Type} (isLink : α → Bool) (links : List α) (last : α)
    (linked : ∀ member ∈ links, isLink member = true) (closed : isLink last = false) :
    split isLink (links ++ [last]) = [⟨links, last⟩] := by
  induction links with
  | nil =>
      rw [List.nil_append, split, closed]
      rfl
  | cons member links ih =>
      rw [List.forall_mem_cons] at linked
      rw [List.cons_append, split, linked.1, ih linked.2]

theorem counting_index_lt {α : Type} (group : Group α) (asks : α → Bool) :
    group.countingIndex asks < group.members.length := by
  unfold countingIndex
  cases found : group.members.findIdx? asks with
  | none => simp [members]
  | some index =>
      obtain ⟨below, _⟩ := List.findIdx?_eq_some_iff_getElem.mp found
      exact below

end Group

/-- The end of a visit on which nothing was put off. -/
theorem Achievement.conclude_of_counted (achievement : Achievement) (history : History)
    {visit : Visit} {conditions : List Condition}
    (behind : visit.behind =
      (conditions.map fun condition => ({ condition } : Visited)).reverse) :
    let next := achievement.conclude history visit
    next.2 = visit.allMet ∧ next.1.conditions = conditions ∧
      next.1.remembered = visit.remembered ∧
      next.1.unlocked = (visit.allMet || achievement.unlocked) := by
  have settled : visit.behind.reverse.map (Visited.settle (visit.sight history)) = conditions := by
    rw [behind, List.reverse_reverse, List.map_map]
    exact List.map_id _
  have unsettled : visit.behind.reverse.map Visited.condition = conditions := by
    rw [behind, List.reverse_reverse, List.map_map]
    exact List.map_id _
  have unblocked : visit.behind.reverse.any (Visited.blocks (visit.sight history)) = false := by
    rw [behind, List.reverse_reverse, List.any_map, List.any_eq_false]
    intro condition _ blocked
    cases blocked
  simp only [conclude, settled, unsettled, unblocked, ite_self, Bool.not_false, Bool.and_true]
  cases visit.allMet <;> exact ⟨rfl, rfl, rfl, rfl⟩

/-- A chain: members that are joined to their successors, and a last one that has to hold. -/
structure Chain where
  group : Group Clause
  linked : ∀ clause ∈ group.links, clause.flag.isLink = true
  plain : group.last.flag = .plain

namespace Chain

variable (chain : Chain)

/-- The place of the member that counts. -/
def place : Nat :=
  chain.group.countingIndex fun clause => decide (0 < clause.target)

def counting : Clause :=
  chain.group.memberAt chain.place

/-- Does the chain hold, while nothing is remembered? -/
def holdsOn (history : History) : Bool :=
  Sight.allHold ⟨history, none⟩ chain.group.members {}

/-- The conditions of the chain after some hits. -/
def conditions (hits : Nat) : List Condition :=
  (chain.group.members.map Condition.fresh).set chain.place
    ⟨chain.counting, .afterHits chain.counting.target hits⟩

/-- No member stops or undoes progress. -/
theorem calm {clause : Clause} (member : clause ∈ chain.group.members) :
    clause.flag.isDisruptive = false := by
  rcases List.mem_append.mp member with link | last
  · have linked := chain.linked clause link
    cases flag : clause.flag <;> rw [flag] at linked <;> first | rfl | cases linked
  · rw [List.mem_singleton.mp last, chain.plain]
    rfl

theorem place_lt : chain.place < chain.group.members.length :=
  chain.group.counting_index_lt _

theorem getElem?_counting : chain.group.members[chain.place]? = some chain.counting :=
  chain.group.getElem?_members_of_lt chain.place_lt

theorem clauses_of_conditions (hits : Nat) :
    (chain.conditions hits).map (·.clause) = chain.group.members := by
  have unchanged : chain.group.members.set chain.place chain.counting = chain.group.members := by
    obtain ⟨below, same⟩ := List.getElem?_eq_some_iff.mp chain.getElem?_counting
    rw [← same, List.set_getElem_self]
  rw [conditions, List.map_set, List.map_map]
  exact (congrArg (List.set · _ _) (List.map_id _)).trans unchanged

theorem conditions_zero : chain.conditions 0 = chain.group.members.map Condition.fresh := by
  have fresh : (chain.group.members.map Condition.fresh)[chain.place]? =
      some (.fresh chain.counting) := by
    rw [List.getElem?_map, chain.getElem?_counting]
    rfl
  obtain ⟨below, same⟩ := List.getElem?_eq_some_iff.mp fresh
  rw [conditions, Counter.after_no_hits]
  exact (congrArg (List.set _ _) same.symm).trans (List.set_getElem_self below)

/-- Conditions of the clauses of the chain form one group. -/
theorem exists_group {conditions : List Condition}
    (same : conditions.map (·.clause) = chain.group.members) :
    ∃ group : Group Condition, conditions = group.members ∧
      group.links.map (·.clause) = chain.group.links ∧ group.last.clause = chain.group.last := by
  obtain ⟨links, lasts, rfl, linkClauses, lastClauses⟩ := List.map_eq_append_iff.mp same
  obtain ⟨last, rfl, lastClause⟩ := List.map_eq_singleton_iff.mp lastClauses
  exact ⟨⟨links, last⟩, rfl, linkClauses, lastClause⟩

theorem split_of_group {group : Group Condition}
    (links : group.links.map (·.clause) = chain.group.links)
    (last : group.last.clause = chain.group.last) :
    Group.split Condition.isLink group.members = [group] := by
  apply Group.split_of_chain
  · intro condition member
    have inLinks : condition.clause ∈ chain.group.links := by
      rw [← links]
      exact List.mem_map_of_mem member
    exact chain.linked _ inLinks
  · rw [Condition.isLink, last, chain.plain]
    rfl

theorem next_of_group {group : Group Condition} (last : group.last.clause = chain.group.last)
    (history : History) (remembered : Option Number) :
    Visit.next history { remembered } group =
      some (Visit.count { remembered } history group) := by
  obtain ⟨links, closing⟩ := group
  have flag : closing.clause.flag = .plain := (congrArg Clause.flag last).trans chain.plain
  cases links with
  | nil =>
      have alone : Group.isSingle Condition.isLink ⟨[], closing⟩ = true := by
        rw [Group.isSingle, Condition.isLink, flag]
        rfl
      simp only [Visit.next, Bool.false_eq_true, if_false, alone, if_true, Visit.single, flag]
  | cons first links =>
      have joined : Group.isSingle Condition.isLink ⟨first :: links, closing⟩ = false := rfl
      simp only [Visit.next, Bool.false_eq_true, if_false, joined, Visit.chain, flag]

theorem counting_index_of_group {group : Group Condition}
    (clauses : group.members.map (·.clause) = chain.group.members) :
    group.countingIndex Condition.hasTarget = chain.place := by
  have lengths := congrArg List.length clauses
  simp only [Group.members, List.length_map, List.length_append, List.length_singleton,
    Nat.add_right_cancel_iff] at lengths
  rw [Group.countingIndex, place, Group.countingIndex, ← clauses, List.findIdx?_map, lengths]
  rfl

/-- Counting the chain once is one more hit if it holds. -/
theorem accrue_of_group {group : Group Condition} {hits : Nat}
    (members : chain.conditions hits = group.members) (truth : Bool) :
    (group.memberAt chain.place).accrue truth =
        ⟨chain.counting, .afterHits chain.counting.target (hits + truth.toNat)⟩ ∧
      group.members.set chain.place ((group.memberAt chain.place).accrue truth) =
        chain.conditions (hits + truth.toNat) := by
  have below : chain.place < group.members.length := by
    rw [← members, conditions, List.length_set, List.length_map]
    exact chain.place_lt
  have here := group.getElem?_members_of_lt below
  rw [← members, conditions, List.getElem?_set_self (by
    rw [List.length_map]
    exact chain.place_lt), Option.some.injEq] at here
  have counted : (group.memberAt chain.place).accrue truth =
      ⟨chain.counting, .afterHits chain.counting.target (hits + truth.toNat)⟩ := by
    rw [← here, Condition.accrue, Counter.accrue_after_hits]
  refine ⟨counted, ?_⟩
  rw [counted, ← members, conditions, List.set_set, conditions]

/-- An achievement that is still locked and has counted some hits of the chain. -/
structure Follows (achievement : Achievement) (hits : Nat) : Prop where
  locked : achievement.unlocked = false
  forgetful : achievement.remembered = none
  counted : achievement.conditions = chain.conditions hits

theorem follows_fresh (id formula : String) :
    chain.Follows (.fresh id formula chain.group.members) 0 where
  locked := rfl
  forgetful := rfl
  counted := chain.conditions_zero.symm

section Frame

variable {chain} {achievement : Achievement} {hits : Nat}

theorem Follows.unpaused (follows : chain.Follows achievement hits) (history : History) :
    achievement.isPaused history = false := by
  have clauses := chain.clauses_of_conditions hits
  rw [← follows.counted] at clauses
  rw [Achievement.isPaused, List.any_eq_false]
  intro condition member
  have inChain : condition.clause ∈ chain.group.members := by
    rw [← clauses]
    exact List.mem_map_of_mem member
  have flag : condition.clause.flag ≠ .pauseIf := by
    intro pause
    have calm := chain.calm inChain
    rw [pause] at calm
    cases calm
  simp [flag]

/-- The visit of an achievement that has counted right so far counts the chain once. -/
theorem Follows.visit (follows : chain.Follows achievement hits) (history : History) :
    ∃ visit, Visit.all history achievement = some visit ∧
      let hitsNow := hits + (chain.holdsOn history).toNat
      visit.behind =
        ((chain.conditions hitsNow).map fun condition => ({ condition } : Visited)).reverse ∧
      visit.allMet = decide (Counter.cap chain.counting.target ≤ hitsNow) ∧
      visit.remembered = none := by
  have clauses := chain.clauses_of_conditions hits
  obtain ⟨group, members, links, last⟩ := chain.exists_group clauses
  refine ⟨Visit.count { remembered := none } history group, ?_, ?_⟩
  · rw [Visit.all, follows.counted, follows.forgetful, members, chain.split_of_group links last,
      List.foldlM_cons, chain.next_of_group last]
    rfl
  · have truth : Sight.allHold ⟨history, none⟩ (group.members.map (·.clause)) {} =
        chain.holdsOn history := by
      rw [← members, clauses, holdsOn]
    obtain ⟨counted, conditions⟩ := chain.accrue_of_group members (chain.holdsOn history)
    rw [members] at clauses
    have met := Counter.met_after_hits chain.counting.target
      (hits + (chain.holdsOn history).toNat)
    simp only [Visit.count, Visit.sight, Visit.leave, truth, chain.counting_index_of_group clauses,
      conditions, List.append_nil, Bool.true_and, true_and, and_true]
    rw [counted]
    exact met

/-- One frame of an achievement that has counted right so far. -/
theorem Follows.step (follows : chain.Follows achievement hits) (history : History) :
    let next := achievement.step history
    let hitsNow := hits + (chain.holdsOn history).toNat
    next.2 = decide (Counter.cap chain.counting.target ≤ hitsNow) ∧
      (next.2 = false → chain.Follows next.1 hitsNow) := by
  intro next hitsNow
  obtain ⟨visit, visited, behind, allMet, remembered⟩ := follows.visit history
  obtain ⟨unlocks, counted, remembers, locks⟩ :=
    Achievement.conclude_of_counted achievement history behind
  have stepped : next = achievement.conclude history visit := by
    simp only [next, Achievement.step, follows.locked, follows.unpaused history, visited,
      Bool.false_eq_true, if_false]
  rw [stepped, ← allMet]
  refine ⟨unlocks, ?_⟩
  intro still
  refine ⟨?_, remembers.trans remembered, counted⟩
  rw [locks, follows.locked, ← unlocks, still]
  rfl

end Frame

variable (id formula : String) (frames : Nat → History)

/-- On how many of the first frames the chain held. -/
def hits (count : Nat) : Nat :=
  (List.range count).countP fun frame => chain.holdsOn (frames frame)

theorem hits_succ (count : Nat) :
    chain.hits frames (count + 1) =
      chain.hits frames count + (chain.holdsOn (frames count)).toNat := by
  rw [hits, List.range_succ, List.countP_append, List.countP_singleton, hits]
  cases chain.holdsOn (frames count) <;> rfl

theorem hits_le_hits {count later : Nat} (before : count ≤ later) :
    chain.hits frames count ≤ chain.hits frames later :=
  (List.range_sublist.mpr before).countP_le

theorem hits_of_holding {count : Nat}
    (holding : ∀ frame < count, chain.holdsOn (frames frame) = true) :
    chain.hits frames count = count := by
  have all : ∀ frame ∈ List.range count, chain.holdsOn (frames frame) = true :=
    fun frame member => holding frame (List.mem_range.mp member)
  rw [hits, List.countP_eq_length.mpr all, List.length_range]

theorem follows_after (count : Nat)
    (running : ∀ frame < count,
      (Achievement.fresh id formula chain.group.members).unlocksOn frames frame = false) :
    chain.Follows ((Achievement.fresh id formula chain.group.members).after frames count)
      (chain.hits frames count) := by
  induction count with
  | zero => exact chain.follows_fresh id formula
  | succ count ih =>
      have follows := ih fun frame before => running frame (Nat.lt_succ_of_lt before)
      rw [hits_succ]
      exact (follows.step (frames count)).2 (running count (Nat.lt_succ_self count))

theorem unlocks_on_iff (frame : Nat)
    (running : ∀ earlier < frame,
      (Achievement.fresh id formula chain.group.members).unlocksOn frames earlier = false) :
    (Achievement.fresh id formula chain.group.members).unlocksOn frames frame = true ↔
      Counter.cap chain.counting.target ≤ chain.hits frames (frame + 1) := by
  have stepped := ((chain.follows_after id formula frames frame running).step (frames frame)).1
  rw [Achievement.unlocksOn, stepped, hits_succ, decide_eq_true_eq]

/-- A chain unlocks as soon as it has held on as many frames as the member that counts asks for. -/
theorem unlocks_within_iff (count : Nat) :
    (∃ frame < count,
        (Achievement.fresh id formula chain.group.members).unlocksOn frames frame = true) ↔
      Counter.cap chain.counting.target ≤ chain.hits frames count := by
  constructor
  · rintro ⟨frame, before, unlocks⟩
    have running := Achievement.running_before_unlock unlocks
    have enough := (chain.unlocks_on_iff id formula frames frame running).mp unlocks
    exact Nat.le_trans enough (chain.hits_le_hits frames (Nat.succ_le_of_lt before))
  · intro enough
    induction count with
    | zero =>
        have positive : 0 < Counter.cap chain.counting.target := by
          unfold Counter.cap
          omega
        exact absurd enough (Nat.not_le_of_lt positive)
    | succ count ih =>
        -- As long as nothing has unlocked the counter is known, so the last frame is looked at only
        -- if the earlier ones were in vain.
        by_cases earlier : ∃ frame < count,
            (Achievement.fresh id formula chain.group.members).unlocksOn frames frame = true
        · obtain ⟨frame, before, unlocks⟩ := earlier
          exact ⟨frame, Nat.lt_succ_of_lt before, unlocks⟩
        · have running : ∀ frame < count,
              (Achievement.fresh id formula chain.group.members).unlocksOn frames frame = false := by
            intro frame before
            exact Bool.eq_false_iff.mpr fun unlocks => earlier ⟨frame, before, unlocks⟩
          exact ⟨count, Nat.lt_succ_self count,
            (chain.unlocks_on_iff id formula frames count running).mpr enough⟩

end Chain

end Achievements
