import Achievements.Proofs.Plan.Growth

/-!
# What holds on the frames of a plan

For clauses that a plan can make come out one by one: pauses and resets are false on every frame,
what needs no ramp holds from the step that satisfies it on, a value that is compared with its change
has grown on all frames after that, one that is compared with its past grows on its own ramp, and
triggers hold on the last frames.
-/

set_option autoImplicit false

namespace Achievements

namespace Flag

/-- Flags whose clauses a plan treats one by one. -/
def plannedFlags : List Flag :=
  [.plain, .measured, .measuredPercent, .pauseIf, .resetIf, .resetNextIf, .trigger]

theorem stands_alone_of_planned {flag : Flag} (planned : flag ∈ plannedFlags) :
    flag.standsAlone = true := by
  cases flag <;> first | rfl | exact absurd planned (by decide)

theorem calm_of_counted {flag : Flag} (counted : flag.isCounted = true) :
    flag.isDisruptive = false ∧ flag ≠ .trigger := by
  cases flag <;> first | decide | cases counted

theorem uncounted_of_disruptive {flag : Flag} (disruptive : flag.isDisruptive = true) :
    flag.isCounted = false := by
  cases flag <;> first | rfl | cases disruptive

end Flag

/-- Does a step write nothing but cells of clauses that play a role? -/
def Step.IsFor (size : Nat) (clauses : List Clause) (role : Clause → Prop) (step : Step) : Prop :=
  ∀ write ∈ step.writes, ∃ clause ∈ clauses, role clause ∧ write.cell size ∈ clause.cells size

theorem Layout.spares {size : Nat} {clauses : List Clause} (layout : Layout size clauses)
    {role : Clause → Prop} {step : Step} (made : step.IsFor size clauses role) {clause : Clause}
    (member : clause ∈ clauses) (other : ¬ role clause) {access : MemoryAccess}
    (own : access ∈ clause.accesses) : step.Spares size access := by
  intro write inStep inAccess
  obtain ⟨owner, ownerMember, plays, owned⟩ := made write inStep
  have different : owner ≠ clause := fun same => other (same ▸ plays)
  exact layout.apart_of_ne ownerMember member different _ owned (Clause.mem_cells own inAccess)

/-- A formula on the frames of its own plan. -/
abbrev Plan.ownTimeline (clauses : List Clause) (history : History) (ram : Ram) : Timeline :=
  timeline clauses history (build clauses).steps ram

/-- A formula that a plan can unlock clause by clause. -/
structure Plannable (size : Nat) (clauses : List Clause) : Prop where
  layout : Layout size clauses
  flags : ∀ clause ∈ clauses, clause.flag ∈ Flag.plannedFlags
  planned : ∀ clause ∈ clauses, clause.Planned
  sums : Plan.sumsFit clauses = true

namespace Plannable

open Plan

variable {size : Nat} {clauses : List Clause} (plannable : Plannable size clauses)

include plannable

theorem stands_alone : ∀ clause ∈ clauses, clause.flag.standsAlone = true :=
  fun clause member => Flag.stands_alone_of_planned (plannable.flags clause member)

theorem steps_after_satisfy : (build clauses).steps =
    (neutralizeSteps clauses ++ [satisfyStep clauses]) ++
      (rampSteps clauses ++ holdSteps clauses ++ triggerSteps clauses) := by
  rw [build_steps plannable.stands_alone]
  simp only [List.append_assoc]

/-- Only clauses that are counted grow. -/
theorem counted_of_growing {clause : Clause} {access : MemoryAccess} (member : clause ∈ clauses)
    (growing : growing? clause = some access) :
    clause.flag.isCounted = true ∧ ∃ past, clause.Grows access past := by
  cases plannable.planned clause member with
  | static _ _ compares =>
      rw [compares.not_growing] at growing
      cases growing
  | growing own past grows counted =>
      rw [grows.growing_eq] at growing
      cases growing
      exact ⟨counted, past, grows⟩

theorem compares_of_still {clause : Clause} (member : clause ∈ clauses)
    (still : growing? clause = none) : ∃ access number, clause.ComparesInteger access number ∧
      clause.CanBe access (!clause.flag.isDisruptive) := by
  cases plannable.planned clause member with
  | static access number compares possible => exact ⟨access, number, compares, possible⟩
  | growing access past grows =>
      rw [grows.growing_eq] at still
      cases still

theorem still_of_uncounted {clause : Clause} (member : clause ∈ clauses)
    (uncounted : clause.flag.isCounted = false) : growing? clause = none := by
  cases growing : growing? clause with
  | none => rfl
  | some access =>
      have counted := (plannable.counted_of_growing member growing).1
      rw [uncounted] at counted
      cases counted

theorem cell_of_solve {clause : Clause} (member : clause ∈ clauses)
    (still : growing? clause = none) {desired : Bool} {write : ByteWrite}
    (made : write ∈ Solver.solve clause desired) : write.cell size ∈ clause.cells size := by
  obtain ⟨access, number, compares, _⟩ := plannable.compares_of_still member still
  have fits := plannable.layout.fits clause member access compares.mem_accesses
  exact Clause.mem_cells compares.mem_accesses (compares.cell_of_solve fits made)

theorem cell_of_value {clause : Clause} {access : MemoryAccess} (member : clause ∈ clauses)
    (growing : growing? clause = some access) {value : Int} {write : ByteWrite}
    (made : write ∈ Solver.writesOfValue access value) : write.cell size ∈ clause.cells size := by
  obtain ⟨_, past, grows⟩ := plannable.counted_of_growing member growing
  have fits := plannable.layout.fits clause member access grows.mem_accesses
  exact Clause.mem_cells grows.mem_accesses
    (Solver.cell_of_writes_of_held size grows.integer fits.withinAddresses made)

omit plannable in
theorem mem_ramps {clause : Clause} {access : MemoryAccess} :
    (clause, access) ∈ ramps clauses ↔
      clause ∈ clauses ∧ clause.flag.isCounted = true ∧ growing? clause = some access := by
  simp only [ramps, List.mem_filterMap, List.mem_filter, Option.map_eq_some_iff, Prod.mk.injEq]
  constructor
  · rintro ⟨other, ⟨member, counted⟩, own, growing, rfl, rfl⟩
    exact ⟨member, counted, growing⟩
  · rintro ⟨member, counted, growing⟩
    exact ⟨clause, ⟨member, counted⟩, access, growing, rfl, rfl⟩

omit plannable in
theorem mem_ramp {clause : Clause} {access : MemoryAccess} {step : Step}
    (member : step ∈ ramp clause access) : ∃ index < (rampCount clause).toNat, step.writes =
      Solver.writesOfValue access
        (min (1 + (index : Int) - settling clause) access.encoding.maximum) := by
  obtain ⟨index, inRange, rfl⟩ := List.mem_map.mp member
  exact ⟨index, List.mem_range.mp inRange, rfl⟩

/-! ## Whose cells a step writes -/

theorem solving_is_for {role : Clause → Bool} (still : ∀ clause ∈ clauses.filter role,
      growing? clause = none) {desired : Bool} {write : ByteWrite}
    (made : write ∈ (clauses.filter role).flatMap (Solver.solve · desired)) :
    ∃ clause ∈ clauses, role clause = true ∧ write.cell size ∈ clause.cells size := by
  obtain ⟨clause, member, solving⟩ := List.mem_flatMap.mp made
  obtain ⟨inClauses, plays⟩ := List.mem_filter.mp member
  exact ⟨clause, inClauses, plays, plannable.cell_of_solve inClauses (still clause member) solving⟩

theorem satisfy_is_for : (satisfyStep clauses).IsFor size clauses (·.flag.isCounted = true) := by
  intro write made
  rcases List.mem_append.mp made with static | seeding
  · obtain ⟨clause, member, solving⟩ := List.mem_flatMap.mp static
    obtain ⟨inClauses, counted⟩ := List.mem_filter.mp member
    rw [Bool.and_eq_true, Option.isNone_iff_eq_none] at counted
    exact ⟨clause, inClauses, counted.1, plannable.cell_of_solve inClauses counted.2 solving⟩
  · obtain ⟨⟨clause, access⟩, member, seeds⟩ := List.mem_flatMap.mp seeding
    obtain ⟨inClauses, counted, growing⟩ := mem_ramps.mp member
    exact ⟨clause, inClauses, counted, plannable.cell_of_value inClauses growing seeds⟩

theorem ramp_is_for {clause : Clause} {access : MemoryAccess}
    (member : (clause, access) ∈ ramps clauses) {step : Step} (inRamp : step ∈ ramp clause access) :
    step.IsFor size clauses (· = clause) := by
  intro write made
  obtain ⟨inClauses, _, growing⟩ := mem_ramps.mp member
  obtain ⟨index, _, writes⟩ := mem_ramp inRamp
  rw [writes] at made
  exact ⟨clause, inClauses, rfl, plannable.cell_of_value inClauses growing made⟩

theorem ramps_are_for {step : Step} (member : step ∈ rampSteps clauses) :
    step.IsFor size clauses fun clause =>
      clause.flag.isCounted = true ∧ (growing? clause).isSome = true := by
  obtain ⟨⟨clause, access⟩, inRamps, inRamp⟩ := List.mem_flatMap.mp member
  obtain ⟨inClauses, counted, growing⟩ := mem_ramps.mp inRamps
  intro write made
  obtain ⟨owner, _, rfl, owned⟩ := plannable.ramp_is_for inRamps inRamp write made
  exact ⟨owner, inClauses, ⟨counted, by rw [growing]; rfl⟩, owned⟩

omit plannable in
theorem hold_is_for (role : Clause → Prop) {step : Step} (member : step ∈ holdSteps clauses) :
    step.IsFor size clauses role := by
  intro write made
  rw [List.eq_of_mem_replicate member] at made
  cases made

theorem triggers_are_for {step : Step} (member : step ∈ triggerSteps clauses) :
    step.IsFor size clauses (·.flag = .trigger) := by
  intro write made
  unfold triggerSteps at member
  split at member
  · cases member
  · rcases List.mem_cons.mp member with rfl | holding
    · have still : ∀ clause ∈ triggers clauses, growing? clause = none := by
        intro clause inTriggers
        obtain ⟨inClauses, trigger⟩ := List.mem_filter.mp inTriggers
        exact plannable.still_of_uncounted inClauses (by rw [eq_of_beq trigger]; rfl)
      obtain ⟨clause, inClauses, trigger, owned⟩ := plannable.solving_is_for still made
      exact ⟨clause, inClauses, eq_of_beq trigger, owned⟩
    · rw [List.eq_of_mem_replicate holding] at made
      cases made

/-! ## Clauses of present values -/

/-- A clause that is solved together with others comes out as desired. -/
theorem outcome_of_solving {role : Clause → Bool} (still : ∀ clause ∈ clauses.filter role,
      growing? clause = none) {clause : Clause} (member : clause ∈ clauses.filter role)
    {access : MemoryAccess} {number : Int64} (compares : clause.ComparesInteger access number)
    {desired : Bool} (possible : clause.CanBe access desired) (ram : Ram) (sized : ram.size = size) :
    clause.outcome (access.valueOf ((ram.write
      ((clauses.filter role).flatMap (Solver.solve · desired))).contents access)) = desired := by
  subst sized
  refine plannable.layout.outcome_of_solving ?_ member compares possible
  intro other inFilter write made
  exact plannable.cell_of_solve (List.mem_filter.mp inFilter).1 (still other inFilter) made

variable {ram : Ram} (sized : ram.size = size) (history : History)

section Spared

variable {clause : Clause} (member : clause ∈ clauses) {access : MemoryAccess}
  (own : access ∈ clause.accesses) {step : Step}

include member own

theorem spared_by_satisfy (uncounted : clause.flag.isCounted = false) :
    (satisfyStep clauses).Spares size access :=
  plannable.layout.spares plannable.satisfy_is_for member (by simp [uncounted]) own

theorem spared_by_ramps (apart : clause.flag.isCounted = false ∨ growing? clause = none)
    (inRamps : step ∈ rampSteps clauses) : step.Spares size access :=
  plannable.layout.spares (plannable.ramps_are_for inRamps) member
    (by rcases apart with uncounted | still <;> simp [*]) own

theorem spared_by_hold (inHold : step ∈ holdSteps clauses) : step.Spares size access :=
  plannable.layout.spares (hold_is_for (fun _ => False) inHold) member id own

theorem spared_by_triggers (other : clause.flag ≠ .trigger)
    (inTriggers : step ∈ triggerSteps clauses) : step.Spares size access :=
  plannable.layout.spares (plannable.triggers_are_for inTriggers) member other own

end Spared

omit plannable in
include sized in
/-- What some steps have made of a clause stays on all later frames if all other steps spare its
operand. -/
theorem holds_after {earlier later : List Step} (steps : (build clauses).steps = earlier ++ later)
    {clause : Clause} {access : MemoryAccess} {number : Int64}
    (compares : clause.ComparesInteger access number) {desired : Bool}
    (made : clause.outcome (access.valueOf ((ramAfter ram earlier).contents access)) = desired)
    (spares : ∀ step ∈ later, step.Spares size access) {frame : Nat}
    (after : earlier.length ≤ frame + 1) :
    (ownTimeline clauses history ram).holds clause frame = desired := by
  subst sized
  rw [Timeline.holds, compares.holds_on (now_of_frame _ _ _ _ frame), steps]
  exact keeps_on_frames ram earlier later (fun step member =>
    Step.keeps_of_spares (spares step member) fun bytes =>
      clause.outcome (access.valueOf bytes) = desired) made (frame + 1) after

omit plannable in
theorem length_neutralize_le (clauses : List Clause) : (neutralizeSteps clauses).length ≤ 1 := by
  unfold neutralizeSteps
  split <;> simp

omit plannable in
theorem ram_after_neutralize (ram : Ram) :
    ramAfter ram (neutralizeSteps clauses) = ram.write (neutralizing clauses) := by
  unfold neutralizeSteps
  split
  · rename_i empty
    rw [List.isEmpty_iff.mp empty]
    rfl
  · exact ram_after_step ram _

include sized

/-- Pauses and resets are false on every frame. -/
theorem disruptive_quiet {clause : Clause} (member : clause ∈ clauses)
    (disruptive : clause.flag.isDisruptive = true) (frame : Nat) :
    (ownTimeline clauses history ram).holds clause frame = false := by
  have other : clause.flag ≠ .trigger := by
    intro trigger
    rw [trigger] at disruptive
    cases disruptive
  have still : ∀ clause ∈ clauses.filter (·.flag.isDisruptive), growing? clause = none := by
    intro clause inFilter
    obtain ⟨inClauses, plays⟩ := List.mem_filter.mp inFilter
    exact plannable.still_of_uncounted inClauses (Flag.uncounted_of_disruptive plays)
  have inFilter : clause ∈ clauses.filter (·.flag.isDisruptive) :=
    List.mem_filter.mpr ⟨member, disruptive⟩
  obtain ⟨access, number, compares, possible⟩ :=
    plannable.compares_of_still member (still clause inFilter)
  have own := compares.mem_accesses
  rw [disruptive, Bool.not_true] at possible
  have steps : (build clauses).steps = neutralizeSteps clauses ++
      ([satisfyStep clauses] ++ rampSteps clauses ++ holdSteps clauses ++ triggerSteps clauses) := by
    rw [build_steps plannable.stands_alone]
    simp only [List.append_assoc]
  refine holds_after sized history steps compares ?_ ?_ ?_
  · rw [ram_after_neutralize, neutralizing]
    exact plannable.outcome_of_solving still inFilter compares possible ram sized
  · intro step inLater
    simp only [List.mem_append, List.mem_singleton] at inLater
    rcases inLater with ((rfl | inRamps) | inHold) | inTriggers
    · exact plannable.spared_by_satisfy member own (Flag.uncounted_of_disruptive disruptive)
    · exact plannable.spared_by_ramps member own
        (Or.inl (Flag.uncounted_of_disruptive disruptive)) inRamps
    · exact plannable.spared_by_hold member own inHold
    · exact plannable.spared_by_triggers member own other inTriggers
  · have short := length_neutralize_le clauses
    omega

/-- What needs no ramp holds from the step on that satisfies it. -/
theorem static_holds {clause : Clause} (member : clause ∈ statics clauses) {frame : Nat}
    (after : (neutralizeSteps clauses).length ≤ frame) :
    (ownTimeline clauses history ram).holds clause frame = true := by
  obtain ⟨inClauses, role⟩ := List.mem_filter.mp member
  rw [Bool.and_eq_true, Option.isNone_iff_eq_none] at role
  obtain ⟨counted, still⟩ := role
  have calm := Flag.calm_of_counted counted
  have allStill : ∀ clause ∈ statics clauses, growing? clause = none := by
    intro other inStatics
    have role := (List.mem_filter.mp inStatics).2
    rw [Bool.and_eq_true, Option.isNone_iff_eq_none] at role
    exact role.2
  obtain ⟨access, number, compares, possible⟩ := plannable.compares_of_still inClauses still
  have own := compares.mem_accesses
  rw [calm.1, Bool.not_false] at possible
  refine holds_after sized history plannable.steps_after_satisfy compares ?_ ?_ ?_
  · have seeds : ∀ write ∈ (ramps clauses).flatMap seedWrites,
        write.cell size ∉ access.cells size := by
      intro write made inAccess
      obtain ⟨⟨grown, operand⟩, inRamps, seeding⟩ := List.mem_flatMap.mp made
      obtain ⟨grownMember, _, growing⟩ := mem_ramps.mp inRamps
      have different : grown ≠ clause := by
        rintro rfl
        rw [still] at growing
        cases growing
      exact plannable.layout.apart_of_ne grownMember inClauses different _
        (plannable.cell_of_value grownMember growing seeding) (Clause.mem_cells own inAccess)
    subst sized
    rw [ram_after_append, ram_after_step, satisfyStep, Ram.write_append,
      Ram.contents_write_of_apart _ _ _ (by simpa only [Ram.size_write, size_ram_after] using seeds)]
    exact plannable.outcome_of_solving allStill member compares possible _ (size_ram_after _ _)
  · intro step inLater
    simp only [List.mem_append] at inLater
    rcases inLater with (inRamps | inHold) | inTriggers
    · exact plannable.spared_by_ramps inClauses own (Or.inr still) inRamps
    · exact plannable.spared_by_hold inClauses own inHold
    · exact plannable.spared_by_triggers inClauses own calm.2 inTriggers
  · simp only [List.length_append, List.length_singleton]
    omega

omit plannable sized in
theorem trigger_steps_eq {clause : Clause} (member : clause ∈ triggers clauses) :
    triggerSteps clauses =
      [triggerStep clauses] ++
        List.replicate (largestTarget (triggers clauses) - 1) { comment := "Hold triggers" } := by
  rw [triggerSteps, if_neg]
  · rfl
  · rw [List.isEmpty_iff]
    exact List.ne_nil_of_mem member

/-- Triggers hold on the frames after all others. -/
theorem trigger_holds {clause : Clause} (member : clause ∈ triggers clauses) {frame : Nat}
    (after : (neutralizeSteps clauses).length + 1 + (rampSteps clauses).length +
      (holdSteps clauses).length ≤ frame) :
    (ownTimeline clauses history ram).holds clause frame = true := by
  obtain ⟨inClauses, trigger⟩ := List.mem_filter.mp member
  have flag : clause.flag = .trigger := eq_of_beq trigger
  have allStill : ∀ clause ∈ triggers clauses, growing? clause = none := by
    intro other inTriggers
    obtain ⟨otherMember, otherTrigger⟩ := List.mem_filter.mp inTriggers
    exact plannable.still_of_uncounted otherMember (by rw [eq_of_beq otherTrigger]; rfl)
  obtain ⟨access, number, compares, possible⟩ :=
    plannable.compares_of_still inClauses (allStill clause member)
  rw [flag] at possible
  have steps : (build clauses).steps = (neutralizeSteps clauses ++ [satisfyStep clauses] ++
      rampSteps clauses ++ holdSteps clauses ++ [triggerStep clauses]) ++
      List.replicate (largestTarget (triggers clauses) - 1) { comment := "Hold triggers" } := by
    rw [build_steps plannable.stands_alone, trigger_steps_eq member]
    simp only [List.append_assoc]
  refine holds_after sized history steps compares ?_ ?_ ?_
  · rw [ram_after_append, ram_after_step]
    exact plannable.outcome_of_solving allStill member compares possible _
      ((size_ram_after _ _).trans sized)
  · intro step inLater write made
    rw [List.eq_of_mem_replicate inLater] at made
    cases made
  · simp only [List.length_append, List.length_singleton]
    omega

end Plannable

end Achievements
