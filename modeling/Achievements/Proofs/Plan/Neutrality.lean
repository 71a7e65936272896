import Achievements.Proofs.Plan.Growth
import Achievements.Proofs.Progress.Interruptions

/-!
# What neutralizing leaves true

Neutralizing makes every pause and reset false, one clause after another, and nothing else. A single
reset, or one that closes a chain whose members all have to hold, is disabled by that. In a chain of
which one member is enough, the clause that closes it is only one of several: such a chain still
holds if any member before the last held already. `Plan.neutralized_resets_hold_iff` says that this
is the only case, and `Plan.alternative_reset_still_holds` is a formula that falls under it.
-/

set_option autoImplicit false

namespace Achievements

theorem Clause.ComparesInteger.holds_alone {clause : Clause} {access : MemoryAccess}
    {number : Int64} (compares : clause.ComparesInteger access number) (history : History)
    (remembered : Option Number) :
    Sight.holdsAlone ⟨history, remembered⟩ clause = clause.holdsOn history := by
  rcases compares.sides with ⟨left, right⟩ | ⟨left, right⟩ <;>
    simp only [Clause.holdsOn, Sight.holdsAlone, Sight.holds, Sight.left, Sight.value, left, right]

namespace Visit

variable {history : History}

/-- By induction on the groups, progress is thrown away where a group that is closed by a reset
holds, if that does not depend on what is remembered. -/
theorem fold_eq_none_iff {visit : Visit} (empty : visit.accumulated = {})
    (groups : List (Group Condition))
    (direct : ∀ group ∈ groups, group.clauses.last.flag.isAccumulator = false)
    (holding : Group Clause → Prop)
    (settled : ∀ group ∈ groups, group.clauses.last.flag = .resetIf → ∀ remembered,
      Sight.allHold ⟨history, remembered⟩ group.clauses.members {} = true ↔ holding group.clauses) :
    groups.foldlM (next history) visit = none ↔
      ∃ group ∈ groups, group.clauses.last.flag = .resetIf ∧ holding group.clauses := by
  induction groups generalizing visit with
  | nil => simp
  | cons group groups ih =>
      rw [List.forall_mem_cons] at direct settled
      have here : next history visit group = none ↔
          group.clauses.last.flag = .resetIf ∧ holding group.clauses := by
        rw [next_eq_none_iff, empty]
        apply and_congr_right
        intro resets
        exact settled.1 resets _
      simp only [List.foldlM_cons, Option.bind_eq_bind, List.mem_cons, exists_eq_or_imp]
      cases first : next history visit group with
      | none => exact iff_of_true rfl (Or.inl (here.mp first))
      | some between =>
          -- This group does not throw progress away, so only the later ones are left to ask.
          have quiet := (not_congr here).mp (by rw [first]; simp)
          rw [Option.bind_some, ih ((left_over_of_next first).2 direct.1) direct.2 settled.2]
          exact (or_iff_right quiet).symm

end Visit

/-- Is one member of a group enough for it to hold? -/
def Group.isAlternative (group : Group Clause) : Prop :=
  ∃ link ∈ group.links, link.flag = .orNext

theorem Sight.all_hold_iff (sight : Sight) {group : Group Clause}
    (closed : group.last.flag ≠ .orNext) :
    sight.allHold group.members {} = true ↔
      (group.isAlternative ∧ ∃ clause ∈ group.members, sight.holdsAlone clause = true) ∨
      (¬ group.isAlternative ∧ ∀ clause ∈ group.members, sight.holdsAlone clause = true) := by
  have joined : (group.members.any fun clause => clause.flag == .orNext) = true ↔
      group.isAlternative := by
    simp [Group.members, Group.isAlternative, closed]
  unfold allHold
  by_cases alternative : group.isAlternative
  · rw [if_pos (joined.mpr alternative), List.any_eq_true]
    simp [alternative, holdsAlone]
  · rw [if_neg (fun any => alternative (joined.mp any)), List.all_eq_true]
    simp [alternative, holdsAlone]

namespace Plan

/-- A formula that neutralizing is meant for: nothing is accumulated, and every clause compares an
integer operand with a constant that it may be made to meet or to miss. -/
structure Neutralizable (size : Nat) (clauses : List Clause) : Prop where
  layout : Layout size clauses
  direct : ∀ clause ∈ clauses, clause.flag.isAccumulator = false
  settable : ∀ clause ∈ clauses, ∃ access number,
    clause.ComparesInteger access number ∧ ∀ desired, clause.CanBe access desired

namespace Neutralizable

variable {ram : Ram} {clauses : List Clause} (neutralizable : Neutralizable ram.size clauses)
  {seen before : History} (after : seen.now = (ram.write (neutralizing clauses)).bytes)
  (initially : before.now = ram.bytes) {clause : Clause} (member : clause ∈ clauses)

include neutralizable

theorem cell_of_solve : ∀ clause ∈ clauses.filter (·.flag.isDisruptive),
    ∀ write ∈ Solver.solve clause false, write.cell ram.size ∈ clause.cells ram.size := by
  intro clause inFilter write made
  have inClauses := (List.mem_filter.mp inFilter).1
  obtain ⟨access, number, compares, _⟩ := neutralizable.settable clause inClauses
  have fits := neutralizable.layout.fits clause inClauses access compares.mem_accesses
  exact Clause.mem_cells compares.mem_accesses (compares.cell_of_solve fits made)

include after member

/-- A pause or a reset is false by itself. -/
theorem quiet (disruptive : clause.flag.isDisruptive = true) : clause.holdsOn seen = false := by
  obtain ⟨access, number, compares, possible⟩ := neutralizable.settable clause member
  rw [compares.holds_on after]
  exact neutralizable.layout.outcome_of_solving neutralizable.cell_of_solve
    (List.mem_filter.mpr ⟨member, disruptive⟩) compares (possible false)

include initially

/-- Everything else holds if it held before. -/
theorem unchanged (calm : clause.flag.isDisruptive = false) :
    clause.holdsOn seen = clause.holdsOn before := by
  obtain ⟨access, number, compares, _⟩ := neutralizable.settable clause member
  have kept := neutralizable.layout.contents_of_solving neutralizable.cell_of_solve member calm
    compares.mem_accesses
  rw [compares.holds_on after, compares.holds_on initially, neutralizing, kept]

omit member

/-- A group that is closed by a reset holds if one member is enough for it and one before the last
held already. -/
theorem all_hold_iff {group : Group Clause} (drawn : group.members ⊆ clauses)
    (links : ∀ link ∈ group.links, link.flag.isLink = true)
    (disruptive : group.last.flag.isDisruptive = true) (remembered : Option Number) :
    Sight.allHold ⟨seen, remembered⟩ group.members {} = true ↔
      group.isAlternative ∧ ∃ link ∈ group.links, link.holdsOn before = true := by
  have alone {clause : Clause} (inGroup : clause ∈ group.members) :
      Sight.holdsAlone ⟨seen, remembered⟩ clause = clause.holdsOn seen := by
    obtain ⟨access, number, compares, _⟩ := neutralizable.settable clause (drawn inGroup)
    exact compares.holds_alone seen remembered
  have inLast : group.last ∈ group.members := List.mem_append_right _ List.mem_cons_self
  have last : Sight.holdsAlone ⟨seen, remembered⟩ group.last = false :=
    (alone inLast).trans (neutralizable.quiet after (drawn inLast) disruptive)
  have link {clause : Clause} (inLinks : clause ∈ group.links) :
      Sight.holdsAlone ⟨seen, remembered⟩ clause = clause.holdsOn before := by
    have inGroup : clause ∈ group.members := List.mem_append_left _ inLinks
    have calm : clause.flag.isDisruptive = false := by
      have linked := links clause inLinks
      cases flag : clause.flag <;> rw [flag] at linked <;> first | rfl | cases linked
    exact (alone inGroup).trans (neutralizable.unchanged after initially (drawn inGroup) calm)
  have closed : group.last.flag ≠ .orNext := by
    intro joined
    rw [joined] at disruptive
    cases disruptive
  have someMember : (∃ clause ∈ group.members,
      Sight.holdsAlone ⟨seen, remembered⟩ clause = true) ↔
        ∃ link ∈ group.links, link.holdsOn before = true := by
    constructor
    · rintro ⟨clause, inGroup, holds⟩
      rcases List.mem_append.mp inGroup with inLinks | isLast
      · exact ⟨clause, inLinks, (link inLinks).symm.trans holds⟩
      · rw [List.mem_singleton.mp isLast, last] at holds
        cases holds
    · rintro ⟨clause, inLinks, held⟩
      exact ⟨clause, List.mem_append_left _ inLinks, (link inLinks).trans held⟩
  rw [Sight.all_hold_iff _ closed, someMember]
  constructor
  · rintro (alternative | ⟨_, all⟩)
    · exact alternative
    · rw [all _ inLast] at last
      cases last
  · exact Or.inl

end Neutralizable

end Plan

theorem Group.links_of_split {α : Type} {isLink : α → Bool} {list : List α} {group : Group α}
    (member : group ∈ split isLink list) :
    group.members ⊆ list ∧ ∀ link ∈ group.links, isLink link = true := by
  induction list generalizing group with
  | nil => cases member
  | cons first rest ih =>
      rw [split] at member
      split at member
      · rename_i next groups linked splits
        rw [splits] at ih
        rcases List.mem_cons.mp member with rfl | later
        · obtain ⟨drawn, links⟩ := ih List.mem_cons_self
          exact ⟨List.cons_subset_cons first drawn, List.forall_mem_cons.mpr ⟨linked, links⟩⟩
        · obtain ⟨drawn, links⟩ := ih (List.mem_cons_of_mem _ later)
          exact ⟨List.subset_cons_of_subset first drawn, links⟩
      · rcases List.mem_cons.mp member with rfl | later
        · exact ⟨by simp [members], fun link none => by cases none⟩
        · obtain ⟨drawn, links⟩ := ih later
          exact ⟨List.subset_cons_of_subset first drawn, links⟩

namespace Plan

/-- After neutralizing no pause is true, and a group that is closed by a reset is true only if one
member is enough for it and one before the last held on the initial memory. A frame throws progress
away exactly where such a group is closed by a reset of all progress. -/
theorem neutralized_resets_hold_iff (achievement : Achievement) (ram : Ram) (history : History)
    (neutralizable : Neutralizable ram.size achievement.clauses) :
    let before := history.advance (.readable ram)
    let seen := history.advance (.readable (ram.write (neutralizing achievement.clauses)))
    achievement.isPaused seen = false ∧
    (∀ group ∈ achievement.groups, group.last.flag = .resetIf ∨ group.last.flag = .resetNextIf →
      ∀ remembered, Sight.allHold ⟨seen, remembered⟩ group.members {} = true ↔
        group.isAlternative ∧ ∃ link ∈ group.links, link.holdsOn before = true) ∧
    (Visit.all seen achievement = none ↔
      ∃ group ∈ achievement.groups, group.last.flag = .resetIf ∧
        group.isAlternative ∧ ∃ link ∈ group.links, link.holdsOn before = true) := by
  intro before seen
  have after : seen.now = (ram.write (neutralizing achievement.clauses)).bytes := rfl
  have initially : before.now = ram.bytes := rfl
  have truths : ∀ group ∈ achievement.groups, group.last.flag.isDisruptive = true →
      ∀ remembered, Sight.allHold ⟨seen, remembered⟩ group.members {} = true ↔
        group.isAlternative ∧ ∃ link ∈ group.links, link.holdsOn before = true := by
    intro group member disruptive remembered
    obtain ⟨drawn, links⟩ := Group.links_of_split member
    exact neutralizable.all_hold_iff after initially drawn links disruptive remembered
  have same : (Group.split Condition.isLink achievement.conditions).map Group.clauses =
      achievement.groups := Group.split_clauses _
  have inGroups {group : Group Condition}
      (member : group ∈ Group.split Condition.isLink achievement.conditions) :
      group.clauses ∈ achievement.groups := same ▸ List.mem_map_of_mem member
  refine ⟨?_, fun group member resets => truths group member ?_, ?_⟩
  · rw [Achievement.isPaused, List.any_eq_false]
    intro condition member paused
    rw [Bool.and_eq_true, beq_iff_eq] at paused
    obtain ⟨pause, holds⟩ := paused
    have inClauses : condition.clause ∈ achievement.clauses := List.mem_map_of_mem member
    obtain ⟨access, number, compares, _⟩ := neutralizable.settable _ inClauses
    have quiet := neutralizable.quiet after inClauses (by rw [pause]; rfl)
    rw [← compares.holds_alone seen achievement.remembered] at quiet
    exact Bool.false_ne_true (quiet.symm.trans holds)
  · rcases resets with flag | flag <;> rw [flag] <;> rfl
  · have direct : ∀ group ∈ Group.split Condition.isLink achievement.conditions,
        group.clauses.last.flag.isAccumulator = false := by
      intro group member
      have drawn := (Group.links_of_split (inGroups member)).1
      exact neutralizable.direct _ (drawn (List.mem_append_right _ List.mem_cons_self))
    rw [Visit.all, Visit.fold_eq_none_iff rfl _ direct
      (fun group => group.isAlternative ∧ ∃ link ∈ group.links, link.holdsOn before = true)
      fun group member resets => truths _ (inGroups member) (by rw [resets]; rfl), ← same]
    simp only [List.mem_map, exists_exists_and_eq_and]

open Achievement (byteEquals)

/-- A byte that is compared with zero or one can be made to meet that and to miss it. -/
theorem settable_byte_equals (flag : Flag) (address : UInt32) {number : Int64}
    (small : number = 0 ∨ number = 1) : ∃ access own,
      (byteEquals flag address number).ComparesInteger access own ∧
      ∀ desired, (byteEquals flag address number).CanBe access desired := by
  refine ⟨{ encoding := .byte, address }, number, ⟨Or.inl ⟨rfl, rfl⟩, rfl, rfl⟩, ?_⟩
  have admitted (byte : UInt8) : MemoryAccess.Admits { encoding := .byte, address } [byte] :=
    ⟨rfl, fun decimal => by cases decimal⟩
  intro desired
  rcases small with rfl | rfl <;> cases desired
  · exact ⟨[1], admitted 1, by with_unfolding_all rfl⟩
  · exact ⟨[0], admitted 0, by with_unfolding_all rfl⟩
  · exact ⟨[0], admitted 0, by with_unfolding_all rfl⟩
  · exact ⟨[1], admitted 1, by with_unfolding_all rfl⟩

/-- A pause, a reset that closes a chain of which all members have to hold, and a single reset. -/
def guardedChain : Achievement :=
  .fresh "a" "f" [byteEquals .pauseIf 1 0, byteEquals .andNext 2 0, byteEquals .resetIf 3 0,
    byteEquals .resetIf 4 0, byteEquals .plain 5 0]

theorem guarded_chain_is_quiet :
    let seen := Achievement.zeros.advance
      (.readable ((Ram.zeroed 8).write (neutralizing guardedChain.clauses)))
    guardedChain.isPaused seen = false ∧ Visit.all seen guardedChain ≠ none := by
  have neutralizable : Neutralizable (Ram.zeroed 8).size guardedChain.clauses := by
    refine ⟨by decide, by decide, ?_⟩
    simp only [guardedChain, Achievement.clauses_of_fresh, List.forall_mem_cons]
    refine ⟨?_, ?_, ?_, ?_, ?_, fun clause none => by cases none⟩ <;>
      exact settable_byte_equals _ _ (Or.inl rfl)
  obtain ⟨unpaused, _, resets⟩ :=
    neutralized_resets_hold_iff guardedChain (.zeroed 8) Achievement.zeros neutralizable
  refine ⟨unpaused, fun thrown => ?_⟩
  obtain ⟨group, member, _, ⟨link, inLinks, joined⟩, _⟩ := resets.mp thrown
  have unjoined : ∀ group ∈ guardedChain.groups, ∀ link ∈ group.links, link.flag ≠ .orNext := by
    decide
  exact unjoined group member link inLinks joined

/-- A reset that closes a chain of which one member is enough. -/
def alternativeReset : List Clause :=
  [byteEquals .orNext 1 0, byteEquals .resetIf 2 1, byteEquals .plain 3 0]

/-- The first member of the chain holds on memory that is zero and is left alone, so the chain still
holds when the reset has been made false. -/
theorem alternative_reset_still_holds :
    Formula.read 60 "O:0xH0001=0_R:0xH0002=1_0xH0003=0" = alternativeReset ∧
    Neutralizable 8 alternativeReset ∧
    let seen := Achievement.zeros.advance
      (.readable ((Ram.zeroed 8).write (neutralizing alternativeReset)))
    let group : Group Clause := ⟨[byteEquals .orNext 1 0], byteEquals .resetIf 2 1⟩
    group ∈ (Achievement.fresh "a" "f" alternativeReset).groups ∧ group.last.flag = .resetIf ∧
      Sight.allHold ⟨seen, none⟩ group.members {} = true := by
  refine ⟨by with_unfolding_all rfl, ⟨by decide, by decide, ?_⟩, ?_, rfl, by decide⟩
  · simp only [alternativeReset, List.forall_mem_cons]
    exact ⟨settable_byte_equals _ _ (Or.inl rfl), settable_byte_equals _ _ (Or.inr rfl),
      settable_byte_equals _ _ (Or.inl rfl), fun clause none => by cases none⟩
  · exact List.mem_cons_self

end Plan

end Achievements
