import Achievements.Proofs.Plan.Frames

/-!
# What holds on a ramp

A growing value starts from its seed and is raised on its own ramp alone. It is never zero if it is
compared with its change. Compared with its value two frames ago, it starts from zero, stays there
for a frame, and then is ahead on every frame of the ramp.
-/

set_option autoImplicit false

namespace Achievements

namespace Plannable

open Plan

theorem length_ramp (clause : Clause) (access : MemoryAccess) :
    (ramp clause access).length = (rampCount clause).toNat := by
  rw [ramp, List.length_map, List.length_range]

/-- On a ramp a value has grown by one for each frame, up to its maximum. -/
theorem held_on_ramp {clause : Clause} {access : MemoryAccess} {past : Modifiers}
    (grows : clause.Grows access past) (ram : Ram) (fits : access.Fits ram.size)
    (earlier later : List Step) (index : Nat) (below : index < (rampCount clause).toNat) :
    access.encoding.readInteger ((ramAfter ram ((earlier ++ (ramp clause access ++ later)).take
      (earlier.length + (index + 1)))).contents access) =
        min (1 + index - settling clause) access.encoding.maximum := by
  have partly : (ramp clause access ++ later).take (index + 1) =
      (ramp clause access).take (index + 1) :=
    List.take_append_of_le_length (by rw [length_ramp]; exact below)
  have settles := settling_le clause
  have value : min (1 + (index : Int) - settling clause) access.encoding.maximum =
      ((min (1 + index - settling clause) access.encoding.maximum : Nat) : Int) := by omega
  -- The last step of the prefix writes the operand as a whole, so the steps before it do not matter.
  rw [List.take_length_add_append, partly, ramp, ← List.map_take, List.take_range,
    Nat.min_eq_left (Nat.succ_le_of_lt below), List.range_succ, List.map_append, ram_after_append,
    ram_after_append]
  simp only [List.map_cons, List.map_nil, ram_after_step, rampValue, value]
  exact grows.held_of_writes _ (by simpa only [size_ram_after] using fits) _ (Nat.min_le_right _ _)

variable {size : Nat} {clauses : List Clause} (plannable : Plannable size clauses)

include plannable

/-- A ramp is given the frames that it takes. -/
theorem ramp_count_of_mem {clause : Clause} {access : MemoryAccess}
    (inRamps : (clause, access) ∈ ramps clauses) :
    (rampCount clause).toNat = rampLength clause := by
  rw [← required_ramps_eq plannable.stands_alone] at inRamps
  exact ramp_count_of_fits plannable.sums inRamps

/-- The holding frames make up for as many frames as the ramps have steps. -/
theorem ramp_total_eq_length : (1 + rampTotal clauses).toNat = 1 + (rampSteps clauses).length := by
  have lengths : (ramps clauses).map (fun grown => (rampOf grown).length) =
      rampLengths clauses := by
    rw [rampLengths, required_ramps_eq plannable.stands_alone]
    apply List.map_congr_left
    intro grown inRamps
    rw [rampOf, length_ramp, plannable.ramp_count_of_mem inRamps]
  rw [ramp_total_of_fits plannable.sums, rampSteps, List.length_flatMap, lengths,
    List.sum_eq_foldl_nat]

theorem ramps_apart : (ramps clauses).Pairwise fun grown other => grown.1.Apart size other.1 := by
  rw [ramps, List.pairwise_filterMap]
  refine (plannable.layout.apart.filter _).imp ?_
  intro clause other apart grown isGrown second isSecond
  obtain ⟨_, _, rfl⟩ := Option.map_eq_some_iff.mp isGrown
  obtain ⟨_, _, rfl⟩ := Option.map_eq_some_iff.mp isSecond
  exact apart

/-- The place of a ramp among the steps of a plan. Its neighbours are ramps of other clauses. -/
theorem ramp_split {clause : Clause} {access : MemoryAccess}
    (inRamps : (clause, access) ∈ ramps clauses) :
    ∃ before after, ramps clauses = before ++ (clause, access) :: after ∧
      (∀ grown ∈ before, grown.1.Apart size clause) ∧
      (∀ grown ∈ after, clause.Apart size grown.1) := by
  obtain ⟨before, after, split⟩ := List.append_of_mem inRamps
  have apart := plannable.ramps_apart
  rw [split, List.pairwise_append, List.pairwise_cons] at apart
  exact ⟨before, after, split, fun grown earlier =>
    apart.2.2 grown earlier _ List.mem_cons_self, apart.2.1.1⟩

variable {ram : Ram} (sized : ram.size = size) (history : History) {clause : Clause}
  {access : MemoryAccess} {past : Modifiers} (inRamps : (clause, access) ∈ ramps clauses)
  (grows : clause.Grows access past)

include inRamps grows

theorem fits_of_ramp : access.Fits size :=
  plannable.layout.fits clause (mem_ramps.mp inRamps).1 access grows.mem_accesses

include sized

theorem held_after_satisfy :
    access.encoding.readInteger ((ramAfter ram
      (neutralizeSteps clauses ++ [satisfyStep clauses])).contents access) =
        if comparesPrior clause then 0 else 1 := by
  subst sized
  obtain ⟨before, after, split, _, apart⟩ := plannable.ramp_split inRamps
  have fits := plannable.fits_of_ramp inRamps grows
  have seeded : seed clause = ((if comparesPrior clause then 0 else 1 : Nat) : Int) := by
    unfold seed
    split <;> rfl
  rw [ram_after_append, ram_after_step, satisfyStep, Ram.write_append, split,
    Ram.contents_write_flat_map _ _ before after (clause, access) access (by
      intro grown inAfter write made inAccess
      have inAll : grown ∈ ramps clauses := by
        rw [split]
        exact List.mem_append_right _ (List.mem_cons_of_mem _ inAfter)
      obtain ⟨inClauses, _, growing⟩ := mem_ramps.mp inAll
      simp only [Ram.size_write, size_ram_after] at inAccess
      exact apart grown inAfter _ (Clause.mem_cells grows.mem_accesses inAccess)
        (plannable.cell_of_value inClauses growing made))]
  rw [seedWrites, seeded]
  apply grows.held_of_writes
  · simpa only [Ram.size_write, size_ram_after] using fits
  · have positive := access.maximum_pos
    split <;> omega

/-- Once seeded, a value that is compared with its change is never zero. -/
theorem positive_after_satisfy (delta : past.delta = true) {count : Nat}
    (after : (neutralizeSteps clauses).length + 1 ≤ count) :
    1 ≤ access.encoding.readInteger
      ((ramAfter ram ((build clauses).steps.take count)).contents access) := by
  have seeded := plannable.held_after_satisfy sized inRamps grows
  have current : comparesPrior clause = false := by
    rw [grows.compares_prior_eq, delta, Bool.not_true, Bool.and_false]
  rw [current] at seeded
  obtain ⟨inClauses, counted, growing⟩ := mem_ramps.mp inRamps
  have own := grows.mem_accesses
  have keeps : ∀ step ∈ rampSteps clauses ++ holdSteps clauses ++ triggerSteps clauses,
      step.Keeps ram.size access fun bytes => 1 ≤ access.encoding.readInteger bytes := by
    intro step inLater
    subst sized
    simp only [List.mem_append] at inLater
    rcases inLater with (inSteps | inHold) | inTriggers
    · obtain ⟨⟨grown, operand⟩, grownRamps, inRamp⟩ := List.mem_flatMap.mp inSteps
      by_cases same : grown = clause
      · subst same
        have sameOperand : operand = access :=
          Option.some.inj ((mem_ramps.mp grownRamps).2.2.symm.trans growing)
        subst sameOperand
        obtain ⟨index, _, writes⟩ := mem_ramp inRamp
        intro memory sameSize _
        have value : min (1 + (index : Int) - settling grown) operand.encoding.maximum =
            ((min (1 + index) operand.encoding.maximum : Nat) : Int) := by
          rw [settling, current]
          simp only [Bool.false_eq_true, if_false]
          omega
        have fits := plannable.fits_of_ramp inRamps grows
        rw [writes, value, grows.held_of_writes memory (by rwa [sameSize]) _ (Nat.min_le_right _ _)]
        have positive := operand.maximum_pos
        omega
      · exact Step.keeps_of_spares (plannable.layout.spares
          (plannable.ramp_is_for grownRamps inRamp) inClauses (fun isGrown => same isGrown.symm)
          own) _
    · exact Step.keeps_of_spares (plannable.spared_by_hold inClauses own inHold) _
    · exact Step.keeps_of_spares (plannable.spared_by_triggers inClauses own
        (Flag.calm_of_counted counted).2 inTriggers) _
  rw [plannable.steps_after_satisfy]
  exact keeps_on_frames ram _ _ keeps (by rw [seeded]; exact Nat.le_refl 1) count
    (by simpa only [List.length_append, List.length_singleton] using after)

/-- A clause that compares a value with its change holds on all frames after it was seeded. -/
theorem change_holds (delta : past.delta = true) {frame : Nat}
    (after : (neutralizeSteps clauses).length + 1 ≤ frame) :
    (ownTimeline clauses history ram).holds clause frame = true := by
  cases frame with
  | zero => omega
  | succ frame =>
      exact grows.holds_of_change delta (now_of_frame _ _ _ _ _) (prev_of_frame _ _ _ _ _)
        (plannable.positive_after_satisfy sized inRamps grows delta after)

omit inRamps grows in
/-- Steps for other clauses leave a value as it is. -/
theorem held_before_ramp (own : access ∈ clause.accesses)
    {before : List (Clause × MemoryAccess)} (others : ∀ grown ∈ before, grown ∈ ramps clauses)
    (apart : ∀ grown ∈ before, grown.1.Apart size clause) (earlier : List Step) {value count : Nat}
    (held : access.encoding.readInteger ((ramAfter ram earlier).contents access) = value)
    (after : earlier.length ≤ count) :
    access.encoding.readInteger ((ramAfter ram
      ((earlier ++ before.flatMap rampOf).take count)).contents access) = value := by
  have keeps : ∀ step ∈ before.flatMap rampOf,
      step.Keeps ram.size access fun bytes => access.encoding.readInteger bytes = value := by
    intro step inSteps
    obtain ⟨⟨grown, operand⟩, inBefore, inRamp⟩ := List.mem_flatMap.mp inSteps
    subst sized
    refine Step.keeps_of_spares ?_ _
    intro write made inAccess
    obtain ⟨owner, _, rfl, owned⟩ :=
      plannable.ramp_is_for (others _ inBefore) inRamp write made
    exact apart _ inBefore _ owned (Clause.mem_cells own inAccess)
  exact keeps_on_frames ram _ _ keeps held count after

/-- The ramp of a clause that compares a value with the one two frames ago, and the steps around it.
Up to there the value is zero. -/
theorem ramp_in_plan (compares : comparesPrior clause = true) : ∃ earlier later,
    (build clauses).steps = earlier ++ (ramp clause access ++ later) ∧
    (neutralizeSteps clauses).length + 1 ≤ earlier.length ∧
    earlier.length + rampLength clause ≤
      (neutralizeSteps clauses).length + 1 + (rampSteps clauses).length ∧
    access.encoding.readInteger ((ramAfter ram earlier).contents access) = 0 := by
  obtain ⟨before, after, split, apart, _⟩ := plannable.ramp_split inRamps
  have given := plannable.ramp_count_of_mem inRamps
  have seeded := plannable.held_after_satisfy sized inRamps grows
  rw [compares, if_pos rfl] at seeded
  let seeding := neutralizeSteps clauses ++ [satisfyStep clauses]
  have seedingLength : seeding.length = (neutralizeSteps clauses).length + 1 := by
    simp only [seeding, List.length_append, List.length_singleton]
  refine ⟨seeding ++ before.flatMap rampOf,
    after.flatMap rampOf ++ holdSteps clauses ++ triggerSteps clauses, ?_, ?_, ?_, ?_⟩
  · rw [build_steps plannable.stands_alone, rampSteps, split]
    simp only [seeding, List.flatMap_append, List.flatMap_cons, List.append_assoc, rampOf]
  · rw [List.length_append]
    omega
  · rw [rampSteps, split]
    simp only [List.flatMap_append, List.flatMap_cons, List.length_append, rampOf, length_ramp]
    omega
  · have unraised := plannable.held_before_ramp sized grows.mem_accesses
      (fun grown inBefore => by rw [split]; exact List.mem_append_left _ inBefore) apart seeding
      seeded (List.prefix_append seeding (before.flatMap rampOf)).length_le
    rwa [List.take_length] at unraised

/-- A clause that compares a value with the one two frames ago holds on its own ramp, after the frame
on which the value settles. -/
theorem prior_holds (old : past = { prior := true }) : ∃ start,
    (neutralizeSteps clauses).length + 1 ≤ start ∧
    start + rampLength clause ≤
      (neutralizeSteps clauses).length + 1 + (rampSteps clauses).length ∧
    ∀ frame, start < frame → frame < start + rampLength clause →
      (ownTimeline clauses history ram).holds clause frame = true := by
  subst old
  have fits := plannable.fits_of_ramp inRamps grows
  have compares : comparesPrior clause = true := by rw [grows.compares_prior_eq]; rfl
  have settles : settling clause = 1 := by rw [settling, compares, if_pos rfl]
  have given := plannable.ramp_count_of_mem inRamps
  obtain ⟨earlier, later, steps, behind, ahead, unraised⟩ :=
    plannable.ramp_in_plan sized inRamps grows compares
  have waiting : access.encoding.readInteger
      ((ramAfter ram ((build clauses).steps.take earlier.length)).contents access) = 0 := by
    rwa [steps, List.take_left]
  have climbing : ∀ index < rampLength clause, access.encoding.readInteger ((ramAfter ram
      ((build clauses).steps.take (earlier.length + (index + 1)))).contents access) =
        min index access.encoding.maximum := by
    intro index below
    rw [← given] at below
    rw [steps, held_on_ramp grows ram (by rwa [sized]) earlier later index below, settles,
      Nat.add_sub_cancel_left]
  refine ⟨earlier.length, behind, ahead, ?_⟩
  intro frame started running
  obtain ⟨index, rfl⟩ : ∃ index, frame = earlier.length + (index + 1) :=
    ⟨frame - earlier.length - 1, by omega⟩
  -- There is a frame two before this one, since no ramp is the first step of a plan.
  obtain ⟨first, place⟩ : ∃ first, earlier.length + index = first + 1 :=
    ⟨earlier.length + index - 1, by omega⟩
  have present := climbing (index + 1) (by omega)
  have past : access.encoding.readInteger
      ((ramAfter ram ((build clauses).steps.take (first + 1))).contents access) =
        min (index - 1) access.encoding.maximum := by
    rw [← place]
    cases index with
    | zero => simpa using waiting
    | succ index => exact climbing index (by omega)
  have frame : earlier.length + (index + 1) = first + 2 := by omega
  have now := now_of_frame clauses history (build clauses).steps ram (first + 2)
  have prior := prior_of_frame clauses history (build clauses).steps ram first
  rw [frame, Timeline.holds, grows.holds_of_prior now prior, ← frame, past]
  rw [show earlier.length + (index + 1) + 1 = earlier.length + (index + 1 + 1) by omega, present]
  have bound := grows.attainable rfl
  have length : rampLength clause = max clause.target.toNat 1 + 1 := by rw [rampLength, settles]
  have positive := access.maximum_pos
  cases same : clause.comparison with
  | eq | lt | le => exact absurd (same ▸ grows.comparison) (by decide)
  | ne | gt =>
      have reachable := bound (by rw [same]; decide)
      exact decide_eq_true (by omega)
  | ge => exact decide_eq_true (by omega)

end Plannable

end Achievements
