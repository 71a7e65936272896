import Achievements.Formula.Reader
import Achievements.Plan.Build
import Achievements.Proofs.Progress.Groups

/-!
# What has to hold

The planner and the evaluator go through the same groups of a formula, each with its own idea of
which of them count. They have the same triggers, and nearly the same groups that have to hold before
those count: a chain closed by a clause that only feeds or adjusts its neighbours is evaluated all the
same, but never planned for. `Achievement.primed_iff` says what an achievement is primed by, and
`Achievement.stray_chain_is_not_planned` is a formula on which the two part ways.
-/

set_option autoImplicit false

namespace Achievements

namespace Group

/-- The clauses of a group of conditions. -/
def clauses (group : Group Condition) : Group Clause :=
  ⟨group.links.map (·.clause), group.last.clause⟩

theorem members_of_clauses (group : Group Condition) :
    group.clauses.members = group.members.map (·.clause) :=
  members_map Condition.clause group

theorem split_clauses (conditions : List Condition) :
    (split Condition.isLink conditions).map clauses =
      split (fun clause : Clause => clause.flag.isLink) (conditions.map (·.clause)) :=
  (split_map (fun clause : Clause => clause.flag.isLink) Condition.clause conditions).symm

theorem is_single_of_clauses (group : Group Condition) :
    group.clauses.isSingle (fun clause => clause.flag.isLink) =
      group.isSingle Condition.isLink := by
  rw [isSingle, isSingle, clauses, List.isEmpty_map]
  rfl

theorem counting_index_of_clauses (group : Group Condition) :
    group.clauses.countingIndex (fun clause => decide (0 < clause.target)) =
      group.countingIndex Condition.hasTarget :=
  counting_index_map (fun clause : Clause => decide (0 < clause.target)) Condition.clause group

end Group

namespace Plan

/-- Does a plan make a group hold before the triggers count? -/
def primes (group : Group Clause) : Bool :=
  (requirementsOf group).any (!·.isTrigger)

/-- Does a plan make a group hold as a trigger? -/
def defers (group : Group Clause) : Bool :=
  (requirementsOf group).any (·.isTrigger)

/-- Is a group a chain closed by a clause that only feeds or adjusts its neighbours? -/
def isStray (group : Group Clause) : Bool :=
  !group.isSingle (fun clause => clause.flag.isLink) &&
    match group.last.flag with
    | .addSource | .subSource | .addAddress | .addHits | .subHits | .remember => true
    | _ => false

theorem chosen_ne_nil (group : Group Clause) : chosen group ≠ [] := by
  have nonempty : group.members ≠ [] := by simp [Group.members]
  unfold chosen
  split
  · cases members : group.members with
    | nil => exact absurd members nonempty
    | cons first rest => exact List.cons_ne_nil _ _
  · exact nonempty

/-- All requirements of a group are of one kind. -/
theorem any_requirement (group : Group Clause) (test : Requirement → Bool) (asked : Bool)
    (tests : ∀ clause, test ⟨clause, group.last.flag == .trigger⟩ = asked) :
    (requirementsOf group).any test = (isRequired group.last.flag && asked) := by
  have ⟨first, rest, chosen⟩ := List.exists_cons_of_ne_nil (chosen_ne_nil group)
  simp only [requirementsOf, chosen]
  cases isRequired group.last.flag with
  | false => rfl
  | true => cases asked <;> simp [tests]

theorem primes_eq (group : Group Clause) :
    primes group = (isRequired group.last.flag && group.last.flag != .trigger) :=
  any_requirement group _ _ fun _ => rfl

theorem defers_eq (group : Group Clause) :
    defers group = (isRequired group.last.flag && group.last.flag == .trigger) :=
  any_requirement group _ _ fun _ => rfl

end Plan

namespace Visit

/-- The clauses of all that was put off, in order. -/
def deferred (visit : Visit) : List (List Clause) :=
  visit.behind.reverse.filterMap fun visited => visited.postponed.map (·.clauses)

/-- Is the member met that counts for the group visited last? -/
def lastMet (visit : Visit) (group : Group Clause) : Bool :=
  let index := group.countingIndex fun clause => decide (0 < clause.target)
  match (visit.behind.take group.members.length).reverse[index]? with
  | some visited => visited.condition.counter.met
  | none => false

/-- What a group has added to a visit: a condition for being primed, or something put off. -/
structure Adds (visit after : Visit) (group : Group Clause) : Prop where
  allMet : after.allMet =
    (visit.allMet && (!(Plan.primes group || Plan.isStray group) || after.lastMet group))
  deferred : after.deferred =
    visit.deferred ++ if Plan.defers group then [group.members] else []

variable {visit after : Visit} {history : History}

theorem deferred_behind {entries : List Visited}
    (behind : after.behind = entries.reverse ++ visit.behind) : after.deferred =
      visit.deferred ++ entries.filterMap fun visited => visited.postponed.map (·.clauses) := by
  rw [deferred, behind, List.reverse_append, List.reverse_reverse, List.filterMap_append]
  rfl

theorem deferred_of_conditions (conditions : List Condition) :
    (conditions.map fun condition => ({ condition } : Visited)).filterMap
      (fun visited => visited.postponed.map (·.clauses)) = [] := by
  rw [List.filterMap_map, List.filterMap_eq_nil_iff]
  exact fun _ _ => rfl

theorem deferred_leave (visit : Visit) (conditions : List Condition) :
    (visit.leave conditions).deferred = visit.deferred := by
  have behind : (visit.leave conditions).behind =
      (conditions.map fun condition => ({ condition } : Visited)).reverse ++ visit.behind := rfl
  rw [deferred_behind behind, deferred_of_conditions, List.append_nil]

theorem deferred_adjust_behind (visit : Visit) (increment : Bool) :
    (visit.adjustBehind increment).deferred = visit.deferred := by
  unfold deferred adjustBehind
  cases visit.behind with
  | nil => rfl
  | cons entry rest => simp [List.filterMap_append, List.filterMap_cons]

theorem deferred_postpone (visit : Visit) (conditions : List Condition) {index : Nat}
    (below : index < conditions.length) : (visit.postpone conditions index).deferred =
      visit.deferred ++ [conditions.map (·.clause)] := by
  let postponed : Postponed := ⟨conditions.map (·.clause), visit.accumulated⟩
  let entries : List Visited := conditions.map fun condition => { condition }
  have behind : (visit.postpone conditions index).behind =
      (entries.modify index fun entry => { entry with postponed := some postponed }).reverse ++
        visit.behind := rfl
  have inside : index < entries.length := by rwa [List.length_map]
  rw [deferred_behind behind, List.modify_eq_take_cons_drop inside, List.filterMap_append,
    List.filterMap_cons, ← List.map_take, ← List.map_drop, deferred_of_conditions,
    deferred_of_conditions]
  rfl

theorem deferred_count (visit : Visit) (history : History) (group : Group Condition) :
    (visit.count history group).deferred = visit.deferred :=
  deferred_leave visit _

/-- A group that is counted is met if the member is that counts for it. -/
theorem all_met_of_count (visit : Visit) (history : History) (group : Group Condition) :
    (visit.count history group).allMet =
      (visit.allMet && (visit.count history group).lastMet group.clauses) := by
  let index := group.countingIndex Condition.hasTarget
  let counted := (group.memberAt index).accrue
    ((visit.sight history).allHold (group.members.map (·.clause)) visit.accumulated)
  let entries : List Visited :=
    (group.members.set index counted).map fun condition => { condition }
  have behind : (visit.count history group).behind = entries.reverse ++ visit.behind := rfl
  have length : group.clauses.members.length = entries.reverse.length := by
    rw [Group.members_of_clauses, List.length_map, List.length_reverse, List.length_map,
      List.length_set]
  have here : entries[index]? = some { condition := counted } := by
    rw [List.getElem?_map, List.getElem?_set_self (group.counting_index_lt _)]
    rfl
  have met : (visit.count history group).lastMet group.clauses = counted.counter.met := by
    rw [lastMet, behind, length, List.take_left, List.reverse_reverse,
      Group.counting_index_of_clauses, here]
  rw [met]
  rfl

theorem adds_of_left {group : Group Clause} (waived : Plan.isRequired group.last.flag = false)
    (straight : Plan.isStray group = false) (allMet : after.allMet = visit.allMet)
    (deferred : after.deferred = visit.deferred) : visit.Adds after group where
  allMet := by
    rw [allMet, Plan.primes_eq, waived, straight]
    exact (Bool.and_true _).symm
  deferred := by
    rw [deferred, Plan.defers_eq, waived]
    exact (List.append_nil _).symm

theorem adds_of_postponed {group : Group Condition} {index : Nat}
    (trigger : group.clauses.last.flag = .trigger) (below : index < group.members.length) :
    visit.Adds (visit.postpone group.members index) group.clauses where
  allMet := by
    have straight : Plan.isStray group.clauses = false := by
      rw [Plan.isStray, trigger]
      exact Bool.and_false _
    rw [Plan.primes_eq, trigger, straight]
    exact (Bool.and_true _).symm
  deferred := by
    rw [deferred_postpone visit _ below, Plan.defers_eq, trigger, Group.members_of_clauses]
    rfl

theorem adds_of_counted {group : Group Condition}
    (counted : (Plan.isRequired group.clauses.last.flag || Plan.isStray group.clauses) = true)
    (untriggered : (group.clauses.last.flag == .trigger) = false) :
    visit.Adds (visit.count history group) group.clauses where
  allMet := by
    have primes : Plan.primes group.clauses = Plan.isRequired group.clauses.last.flag := by
      rw [Plan.primes_eq, bne, untriggered]
      exact Bool.and_true _
    rw [primes, counted, all_met_of_count]
    rfl
  deferred := by
    rw [deferred_count, Plan.defers_eq, untriggered, Bool.and_false]
    exact (List.append_nil _).symm

/-- A clause outside any chain is counted if it has to hold, and put off if it is a trigger. -/
theorem adds_of_single {condition : Condition} (unlinked : condition.isLink = false)
    (visited : visit.single history condition = some after) :
    visit.Adds after (Group.clauses ⟨[], condition⟩) := by
  have straight : Plan.isStray (Group.clauses ⟨[], condition⟩) = false := by
    have alone : Group.isSingle Condition.isLink ⟨[], condition⟩ = true := by
      rw [Group.isSingle, unlinked]
      rfl
    rw [Plan.isStray, Group.is_single_of_clauses, alone]
    rfl
  unfold Condition.isLink at unlinked
  unfold single at visited
  cases flag : condition.clause.flag <;> simp only [flag] at visited
  case pauseIf | measuredIf | resetNextIf | remember | addSource | subSource | addAddress =>
    cases visited
    exact adds_of_left (congrArg Plan.isRequired flag) straight rfl (deferred_leave _ _)
  case resetIf =>
    split at visited
    · cases visited
    · cases visited
      exact adds_of_left (congrArg Plan.isRequired flag) straight rfl (deferred_leave _ _)
  case addHits | subHits =>
    cases visited
    refine adds_of_left (congrArg Plan.isRequired flag) straight ?_ ?_
    · split <;> rfl
    · rw [deferred_leave]
      split
      · exact deferred_adjust_behind _ _
      · rfl
  case trigger =>
    cases visited
    have trigger : (Group.clauses ⟨[], condition⟩).last.flag = .trigger := flag
    exact adds_of_postponed trigger Nat.zero_lt_one
  case plain | measured | measuredPercent =>
    cases visited
    have required := congrArg Plan.isRequired flag
    exact adds_of_counted (Bool.or_eq_true_iff.mpr (Or.inl required)) (congrArg (· == .trigger) flag)
  case andNext | orNext =>
    rw [flag] at unlinked
    cases unlinked

/-- A chain is put off if a trigger closes it, and counted unless a pause, a reset or a gate does:
also if it is a stray one. -/
theorem adds_of_chain {group : Group Condition} (chained : group.isSingle Condition.isLink = false)
    (visited : visit.chain history group = some after) : visit.Adds after group.clauses := by
  have stray : Plan.isStray group.clauses =
      match group.last.clause.flag with
      | .addSource | .subSource | .addAddress | .addHits | .subHits | .remember => true
      | _ => false := by
    rw [Plan.isStray, group.is_single_of_clauses, chained]
    rfl
  unfold chain at visited
  cases flag : group.last.clause.flag <;> simp only [flag] at visited stray
  case pauseIf | measuredIf | resetNextIf =>
    cases visited
    exact adds_of_left (congrArg Plan.isRequired flag) stray rfl (deferred_leave _ _)
  case resetIf =>
    split at visited
    · cases visited
    · cases visited
      exact adds_of_left (congrArg Plan.isRequired flag) stray rfl (deferred_leave _ _)
  case trigger =>
    cases visited
    exact adds_of_postponed flag (group.counting_index_lt _)
  case addSource | subSource | addAddress | addHits | subHits | remember =>
    cases visited
    exact adds_of_counted (Bool.or_eq_true_iff.mpr (Or.inr stray)) (congrArg (· == .trigger) flag)
  case plain | measured | measuredPercent | andNext | orNext =>
    cases visited
    have required := congrArg Plan.isRequired flag
    exact adds_of_counted (Bool.or_eq_true_iff.mpr (Or.inl required)) (congrArg (· == .trigger) flag)

theorem clauses_of_reset_first (group : Group Condition) :
    (resetFirst group).clauses = group.clauses := by
  obtain ⟨links, last⟩ := group
  cases links <;> rfl

theorem adds_of_next {group : Group Condition} (visited : next history visit group = some after) :
    visit.Adds after group.clauses := by
  obtain ⟨moved, kind, visited⟩ := next_cases visited
  have same : moved.clauses = group.clauses := by
    rcases kind with rfl | rfl
    · rfl
    · exact clauses_of_reset_first group
  have adds : Adds { visit with resetNext := false } after moved.clauses := by
    rcases visited with ⟨condition, rfl, unlinked, single⟩ | ⟨chained, chain⟩
    · exact adds_of_single unlinked single
    · exact adds_of_chain chained chain
  rw [same] at adds
  exact ⟨adds.allMet, adds.deferred⟩

/-- By induction on the groups, exactly those are put off that a plan makes hold as triggers. -/
theorem deferred_of_fold (groups : List (Group Condition))
    (visited : groups.foldlM (next history) visit = some after) :
    after.deferred = visit.deferred ++
      ((groups.map Group.clauses).filter Plan.defers).map Group.members := by
  induction groups generalizing visit with
  | nil =>
      cases visited
      simp
  | cons group groups ih =>
      rw [List.foldlM_cons, Option.bind_eq_bind, Option.bind_eq_some_iff] at visited
      obtain ⟨between, first, rest⟩ := visited
      rw [ih rest, (adds_of_next first).deferred, List.map_cons, List.filter_cons]
      cases Plan.defers group.clauses <;> simp

/-- All is met if every group that counts was met when it was visited. -/
theorem all_met_of_fold (groups : List (Group Condition))
    (visited : groups.foldlM (next history) visit = some after) :
    after.allMet = true ↔ visit.allMet = true ∧
      ∀ index group, (groups.map Group.clauses)[index]? = some group →
        Plan.primes group = true ∨ Plan.isStray group = true →
        ∃ between, (groups.take (index + 1)).foldlM (next history) visit = some between ∧
          between.lastMet group = true := by
  induction groups generalizing visit with
  | nil =>
      cases visited
      simp
  | cons group groups ih =>
      rw [List.foldlM_cons, Option.bind_eq_bind, Option.bind_eq_some_iff] at visited
      obtain ⟨between, first, rest⟩ := visited
      have here : ((group :: groups).take 1).foldlM (next history) visit = some between := by
        rw [List.take_succ_cons, List.foldlM_cons, first]
        rfl
      have later : ∀ index, ((group :: groups).take (index + 1 + 1)).foldlM (next history) visit =
          (groups.take (index + 1)).foldlM (next history) between := by
        intro index
        rw [List.take_succ_cons, List.foldlM_cons, first]
        rfl
      rw [ih rest, (adds_of_next first).allMet, Bool.and_eq_true, Bool.or_eq_true,
        Bool.not_eq_true']
      constructor
      · intro ⟨⟨before, head⟩, tail⟩
        refine ⟨before, ?_⟩
        intro index other place counts
        cases index with
        | zero =>
            cases place
            rw [← Bool.or_eq_true] at counts
            rcases head with waived | met
            · rw [waived] at counts
              cases counts
            · exact ⟨between, here, met⟩
        | succ index =>
            rw [later]
            exact tail index other place counts
      · intro ⟨before, gathered⟩
        refine ⟨⟨before, ?_⟩, ?_⟩
        · cases counts : Plan.primes group.clauses || Plan.isStray group.clauses with
          | false => exact Or.inl rfl
          | true =>
              have ⟨reached, same, met⟩ :=
                gathered 0 group.clauses rfl ((Bool.or_eq_true _ _).mp counts)
              rw [here] at same
              cases same
              exact Or.inr met
        · intro index other place counts
          rw [← later]
          exact gathered (index + 1) other place counts

/-- A visit has gathered what each group adds. -/
theorem gathered_of_fold (groups : List (Group Condition))
    (visited : groups.foldlM (next history) visit = some after) :
    (after.allMet = true ↔ visit.allMet = true ∧
      ∀ index group, (groups.map Group.clauses)[index]? = some group →
        Plan.primes group = true ∨ Plan.isStray group = true →
        ∃ between, (groups.take (index + 1)).foldlM (next history) visit = some between ∧
          between.lastMet group = true) ∧
      after.deferred = visit.deferred ++
        ((groups.map Group.clauses).filter Plan.defers).map Group.members :=
  ⟨all_met_of_fold groups visited, deferred_of_fold groups visited⟩

end Visit

namespace Achievement

/-- The groups of the formula. -/
def groups (achievement : Achievement) : List (Group Clause) :=
  Group.split (fun clause => clause.flag.isLink) achievement.clauses

/-- The visit of the first groups of an achievement. -/
def visitUpTo (history : History) (achievement : Achievement) (count : Nat) : Option Visit :=
  ((Group.split Condition.isLink achievement.conditions).take count).foldlM (Visit.next history)
    { remembered := achievement.remembered }

theorem primed_of_conclude (achievement : Achievement) (history : History) (visit : Visit) :
    (achievement.conclude history visit).1.primed = visit.allMet := by
  unfold conclude
  simp only
  split <;> rfl

/-- On a frame without pause or reset, an achievement is primed exactly if all groups were met that a
plan makes hold before the triggers count, and all stray chains. Exactly the groups are put off that
a plan makes hold as triggers. -/
theorem primed_iff (history : History) (achievement : Achievement)
    (locked : achievement.unlocked = false) (unpaused : achievement.isPaused history = false)
    (unreset : (Visit.all history achievement).isSome = true) :
    Plan.requirements achievement.clauses = achievement.groups.flatMap Plan.requirementsOf ∧
      ((achievement.step history).1.primed = true ↔
        ∀ index group, achievement.groups[index]? = some group →
          Plan.primes group = true ∨ Plan.isStray group = true →
          ∃ visit, achievement.visitUpTo history (index + 1) = some visit ∧
            visit.lastMet group = true) ∧
      (Visit.all history achievement).map Visit.deferred =
        some ((achievement.groups.filter Plan.defers).map Group.members) := by
  obtain ⟨visit, visited⟩ := Option.isSome_iff_exists.mp unreset
  have groups : (Group.split Condition.isLink achievement.conditions).map Group.clauses =
      achievement.groups := Group.split_clauses _
  have ⟨allMet, deferred⟩ := Visit.gathered_of_fold _ visited
  have primed : (achievement.step history).1.primed = visit.allMet := by
    rw [step, if_neg (Bool.eq_false_iff.mp locked), if_neg (Bool.eq_false_iff.mp unpaused), visited]
    exact primed_of_conclude achievement history visit
  refine ⟨rfl, ?_, ?_⟩
  · rw [primed, allMet, groups]
    exact and_iff_right rfl
  · rw [visited, Option.map_some, deferred, groups]
    rfl

def zeros : History :=
  .capture (.readable (.zeroed 8))

/-- A byte that is compared with a number. -/
def byteEquals (flag : Flag) (address : UInt32) (number : Int64) : Clause :=
  { flag, left := .memory { encoding := .byte, address }, comparison := .eq
    right := .constant (.int number) }

/-- A chain that is met, an accumulator, a chain for a trigger, and a stray chain that is met. -/
def mixed : Achievement :=
  .fresh "a" "f" [byteEquals .andNext 1 0, byteEquals .plain 2 0, byteEquals .addSource 3 0,
    byteEquals .orNext 4 1, byteEquals .trigger 5 1, byteEquals .andNext 6 0,
    byteEquals .subSource 7 0]

theorem mixed_is_primed :
    mixed.unlocked = false ∧ mixed.isPaused zeros = false ∧
      (Visit.all zeros mixed).isSome = true ∧
      mixed.groups.map Plan.primes = [true, false, false, false] ∧
      mixed.groups.map Plan.isStray = [false, false, false, true] ∧
      (mixed.step zeros).1.primed = true ∧
      (∀ index group, mixed.groups[index]? = some group →
        Plan.primes group = true ∨ Plan.isStray group = true →
        ∃ visit, mixed.visitUpTo zeros (index + 1) = some visit ∧ visit.lastMet group = true) ∧
      (Visit.all zeros mixed).map Visit.deferred =
        some ((mixed.groups.filter Plan.defers).map Group.members) := by
  have locked : mixed.unlocked = false := rfl
  have unpaused : mixed.isPaused zeros = false := by decide
  have unreset : (Visit.all zeros mixed).isSome = true := by decide
  have primed : (mixed.step zeros).1.primed = true := by decide
  have agree := primed_iff zeros mixed locked unpaused unreset
  exact ⟨locked, unpaused, unreset, by decide, by decide, primed,
    agree.2.1.mp primed, agree.2.2⟩

/-- Two clauses that do not hold; the second one adds hits. -/
def strayed : List Clause :=
  [byteEquals .andNext 1 1, byteEquals .addHits 2 1]

/-- Nothing is planned for a chain that is closed by hits to add, but it keeps the achievement from
being primed. -/
theorem stray_chain_is_not_planned :
    Formula.read 60 "N:0xH0001=1_C:0xH0002=1" = strayed ∧
      (fresh "a" "f" strayed).unlocked = false ∧
      (fresh "a" "f" strayed).isPaused zeros = false ∧
      (Visit.all zeros (fresh "a" "f" strayed)).isSome = true ∧
      (fresh "a" "f" strayed).groups.any Plan.primes = false ∧
      ((fresh "a" "f" strayed).step zeros).1.primed = false := by
  refine ⟨?_, rfl, ?_⟩
  · with_unfolding_all rfl
  · decide

end Achievement

end Achievements
