import Achievements.Proofs.Plan.Ramps

/-!
# Plans unlock what they are made for

The frames of a plan are all active. By the end of its ramps and holding frames every clause that is
counted has enough hits, and so have the triggers by the end of the plan, whatever memory was like
before. `Plan.static_plan_succeeds` is about formulas that compare with constants, and
`Plan.ramp_plan_succeeds` about those that ask for growing values as well.
-/

set_option autoImplicit false

namespace Achievements

namespace Plan

theorem lt_foldl_max (targets : List Nat) (least bound : Nat) :
    bound < targets.foldl max least ↔ bound < least ∨ ∃ target ∈ targets, bound < target := by
  induction targets generalizing least with
  | nil => simp
  | cons target targets ih =>
      have larger : bound < max least target ↔ bound < least ∨ bound < target := by omega
      simp only [List.foldl_cons, ih, larger, or_assoc, List.exists_mem_cons_iff]

/-- Somebody asks for the largest number of hits. -/
theorem lt_largest_target_iff (clauses : List Clause) (bound : Nat) :
    bound < largestTarget clauses ↔ ∃ clause ∈ clauses, bound < clause.target.toNat := by
  rw [largestTarget, lt_foldl_max]
  simp

theorem le_largest_target {clauses : List Clause} {clause : Clause} (member : clause ∈ clauses) :
    clause.target.toNat ≤ largestTarget clauses := by
  apply Nat.le_of_not_lt
  intro larger
  exact Nat.lt_irrefl _ ((lt_largest_target_iff clauses _).mpr ⟨clause, member, larger⟩)

end Plan

namespace Plannable

open Plan

/-- The frames until all but the triggers has enough hits. -/
def settledBy (clauses : List Clause) : Nat :=
  (neutralizeSteps clauses).length + 1 + (rampSteps clauses).length + (holdSteps clauses).length

variable {size : Nat} {clauses : List Clause} (plannable : Plannable size clauses)

include plannable

theorem ramp_length_le {clause : Clause} {access : MemoryAccess}
    (inRamps : (clause, access) ∈ ramps clauses) :
    rampLength clause ≤ (rampSteps clauses).length := by
  obtain ⟨before, after, split, _⟩ := plannable.ramp_split inRamps
  have given := plannable.ramp_count_of_mem inRamps
  rw [rampSteps, split]
  simp only [List.flatMap_append, List.flatMap_cons, List.length_append, rampOf, length_ramp]
  omega

variable {ram : Ram} (sized : ram.size = size) (history : History)

include sized

theorem is_active (frame : Nat) :
    (ownTimeline clauses history ram).isActive frame = true := by
  have quiet : ∀ flag : Flag, flag.isDisruptive = true →
      (clauses.any fun clause => clause.flag == flag &&
        (ownTimeline clauses history ram).holds clause frame) = false := by
    intro flag disruptive
    rw [List.any_eq_false]
    intro clause member held
    rw [Bool.and_eq_true] at held
    have quiet := plannable.disruptive_quiet sized history member
      (by rw [eq_of_beq held.1]; exact disruptive) frame
    rw [quiet] at held
    exact Bool.false_ne_true held.2
  have unpaused : (ownTimeline clauses history ram).isPaused frame = false :=
    quiet .pauseIf rfl
  have unreset : (ownTimeline clauses history ram).isReset frame = false := by
    rw [Timeline.isReset, unpaused, Bool.not_false, Bool.true_and]
    exact quiet .resetIf rfl
  rw [Timeline.isActive, unpaused, unreset]
  rfl

theorem is_steady (frame : Nat) :
    (ownTimeline clauses history ram).IsSteady frame where
  alone := plannable.stands_alone
  quiet := by
    intro clause member resetNext
    exact plannable.disruptive_quiet sized history member (by rw [resetNext]; rfl) frame

/-- A run of frames that pass a test counts in full, since all frames are active. -/
theorem le_count_of_passing (test : Nat → Bool) {first frames : Nat} (before : first ≤ frames)
    (passing : ∀ frame, first ≤ frame → frame < frames → test frame = true) :
    frames - first ≤ (ownTimeline clauses history ram).count test frames := by
  apply Timeline.le_count _ test first frames before
  intro frame after below
  exact ⟨plannable.is_active sized history frame, passing frame after below⟩

/-- Clauses that need no ramp count from the step on that satisfies them. -/
theorem static_reaches_cap {clause : Clause} (member : clause ∈ statics clauses) {frames : Nat}
    (settled : settledBy clauses ≤ frames) : Counter.cap clause.target ≤
      (ownTimeline clauses history ram).hits clause frames := by
  have counted := plannable.le_count_of_passing sized history
    ((ownTimeline clauses history ram).holds clause)
    (show (neutralizeSteps clauses).length ≤ frames by unfold settledBy at settled; omega)
    fun frame after _ => plannable.static_holds sized history member after
  have target := le_largest_target member
  -- The holding steps make up for what the ramps fall short of the largest target.
  unfold settledBy holdSteps at settled
  rw [List.length_replicate, plannable.ramp_total_eq_length] at settled
  unfold Counter.cap
  rw [Timeline.hits]
  omega

/-- A growing value is ahead of its past often enough by the end of its ramp. -/
theorem growing_reaches_cap {clause : Clause} {access : MemoryAccess}
    (inRamps : (clause, access) ∈ ramps clauses) {frames : Nat}
    (settled : settledBy clauses ≤ frames) : Counter.cap clause.target ≤
      (ownTimeline clauses history ram).hits clause frames := by
  obtain ⟨inClauses, _, growing⟩ := mem_ramps.mp inRamps
  obtain ⟨_, past, grows⟩ := plannable.counted_of_growing inClauses growing
  unfold settledBy at settled
  unfold Counter.cap
  rw [Timeline.hits]
  cases delta : past.delta with
  | true =>
      have counted := plannable.le_count_of_passing sized history
        ((ownTimeline clauses history ram).holds clause)
        (show (neutralizeSteps clauses).length + 1 ≤ frames by omega)
        fun frame after _ => plannable.change_holds sized history inRamps grows delta after
      have ramped := plannable.ramp_length_le inRamps
      unfold rampLength at ramped
      omega
  | false =>
      have old : past = { prior := true } := by
        rcases grows.aged_cases with rfl | rfl | rfl
        · cases delta
        · rfl
        · cases delta
      obtain ⟨start, _, within, holds⟩ :=
        plannable.prior_holds sized history inRamps grows old
      have length : rampLength clause = max clause.target.toNat 1 + 1 := by
        rw [rampLength, settling, grows.compares_prior_eq, old]
        rfl
      -- The frame on which the value settles does not count.
      have counted := plannable.le_count_of_passing sized history
        ((ownTimeline clauses history ram).holds clause)
        (show start + 1 ≤ start + rampLength clause by omega)
        fun frame after before => holds frame (by omega) before
      have kept := (ownTimeline clauses history ram).count_le_count
        ((ownTimeline clauses history ram).holds clause)
        (show start + rampLength clause ≤ frames by omega)
        fun frame _ _ => plannable.is_active sized history frame
      omega

theorem is_primed {frames : Nat} (settled : settledBy clauses ≤ frames) :
    (ownTimeline clauses history ram).isPrimed frames = true := by
  rw [Timeline.isPrimed, List.all_eq_true]
  intro clause member
  cases counted : clause.flag.isCounted with
  | false => rfl
  | true =>
      rw [Bool.not_true, Bool.false_or, decide_eq_true_eq]
      cases growing : growing? clause with
      | none =>
          have static : clause ∈ statics clauses :=
            List.mem_filter.mpr ⟨member, by rw [counted, growing]; rfl⟩
          exact plannable.static_reaches_cap sized history static settled
      | some access =>
          have inRamps : (clause, access) ∈ ramps clauses :=
            mem_ramps.mpr ⟨member, counted, growing⟩
          exact plannable.growing_reaches_cap sized history inRamps settled

theorem trigger_reaches_cap {clause : Clause} (member : clause ∈ triggers clauses) :
    Counter.cap clause.target ≤ (ownTimeline clauses history ram).triggerHits
      clause (build clauses).length := by
  have target := le_largest_target member
  have length : (build clauses).length =
      settledBy clauses + (1 + (largestTarget (triggers clauses) - 1)) := by
    rw [Plan.length, build_steps plannable.stands_alone, trigger_steps_eq member, settledBy]
    simp only [List.length_append, List.length_singleton, List.length_replicate]
  have counted := plannable.le_count_of_passing sized history
    (fun frame => (ownTimeline clauses history ram).isPrimed (frame + 1) &&
      (ownTimeline clauses history ram).holds clause frame)
    (show settledBy clauses ≤ (build clauses).length by omega) (by
      intro frame after _
      rw [plannable.is_primed sized history (Nat.le_succ_of_le after), Bool.true_and]
      exact plannable.trigger_holds sized history member after)
  unfold Counter.cap
  rw [Timeline.triggerHits]
  omega

theorem is_complete : (ownTimeline clauses history ram).isComplete
    (build clauses).length = true := by
  have settled : settledBy clauses ≤ (build clauses).length := by
    rw [Plan.length, build_steps plannable.stands_alone, settledBy]
    simp only [List.length_append, List.length_singleton]
    omega
  rw [Timeline.isComplete, plannable.is_primed sized history settled, Bool.true_and,
    List.all_eq_true]
  intro clause member
  cases trigger : clause.flag == .trigger with
  | false => rfl
  | true =>
      rw [Bool.not_true, Bool.false_or, decide_eq_true_eq]
      exact plannable.trigger_reaches_cap sized history
        (List.mem_filter.mpr ⟨member, trigger⟩)

omit sized in
/-- A plan unlocks what it was made for, whatever memory and the engine have seen before. -/
theorem succeeds {σ : Type} (console : Console σ) (sized : console.ram.size = size)
    (engine : Engine) (id formula : String)
    (loaded : Achievement.fresh id formula clauses ∈ engine.achievements) :
    Succeeds id ((build clauses).watch idle id console engine) := by
  have nonempty : 0 < (build clauses).length := by
    rw [Plan.length, build_steps plannable.stands_alone]
    simp only [List.length_append, List.length_singleton]
    omega
  have complete := plannable.is_complete sized engine.history
  rw [← Nat.sub_add_cancel nonempty] at complete
  obtain ⟨frame, before, unlocks⟩ :=
    (ownTimeline clauses engine.history console.ram).unlocks_by id formula
      ((build clauses).length - 1) (fun frame _ => plannable.is_steady sized engine.history frame)
      (plannable.is_active sized engine.history _) complete
  exact watch_unlocks (build clauses) console engine id formula clauses loaded
    ⟨frame, by omega, unlocks⟩

end Plannable

namespace Plan

/-- The plan for a formula of comparisons of present integers with constants unlocks it, if the
operands have no cells in common and every comparison can come out as its flag asks. -/
theorem static_plan_succeeds {σ : Type} (clauses : List Clause)
    (flags : ∀ clause ∈ clauses, clause.flag ∈ Flag.plannedFlags) (console : Console σ)
    (layout : Layout console.ram.size clauses)
    (solvable : ∀ clause ∈ clauses, ∃ access number,
      clause.ComparesInteger access number ∧ clause.CanBe access (!clause.flag.isDisruptive))
    (engine : Engine) (id formula : String)
    (loaded : Achievement.fresh id formula clauses ∈ engine.achievements) :
    Succeeds id ((build clauses).watch idle id console engine) := by
  have standing : ∀ clause ∈ clauses, clause.flag.standsAlone = true := fun clause member =>
    Flag.stands_alone_of_planned (flags clause member)
  have planned : ∀ clause ∈ clauses, clause.Planned := by
    intro clause member
    obtain ⟨access, number, compares, possible⟩ := solvable clause member
    exact .static access number compares possible
  -- There are no ramps, and so no frames of ramps to be added up.
  have still : ramps clauses = [] := by
    rw [ramps, List.filterMap_eq_nil_iff]
    intro clause member
    obtain ⟨_, _, compares, _⟩ := solvable clause (List.mem_of_mem_filter member)
    rw [compares.not_growing]
    rfl
  have sums : sumsFit clauses = true := by
    rw [sumsFit, rampLengths, required_ramps_eq standing, still]
    rfl
  have plannable : Plannable console.ram.size clauses := ⟨layout, flags, planned, sums⟩
  exact plannable.succeeds console rfl engine id formula loaded

/-- A reset, a clause with three hits and a trigger with two. -/
def guardedClauses : List Clause :=
  [{ flag := .resetIf, left := .memory { encoding := .byte, address := 10 }
     comparison := .ne, right := .constant (.int 0) },
    { flag := .plain, left := .constant (.int 40)
      comparison := .lt, right := .memory
        { encoding := .byte, address := 1, modifiers := { bcd := true } }
      target := 3 },
    { flag := .trigger
      left := .memory
        { encoding := .word16 .bigEndian, address := 4, modifiers := { invert := true } }
      comparison := .eq, right := .constant (.int (-7)), target := 2 }]

/-- Memory on which the reset holds, and an engine that has loaded a formula. -/
def setConsole : Console Unit :=
  ⟨⟨Array.replicate 8 1⟩, ()⟩

def engineOf (clauses : List Clause) : Engine :=
  { Engine.create 60 (.readable setConsole.ram) with achievements := [.fresh "a" "f" clauses] }

theorem guarded_plan_succeeds :
    Layout setConsole.ram.size guardedClauses ∧
      Succeeds "a" ((build guardedClauses).watch idle "a" setConsole (engineOf guardedClauses)) := by
  have layout : Layout setConsole.ram.size guardedClauses := by decide
  refine ⟨layout, static_plan_succeeds guardedClauses (by decide) setConsole layout ?_
    (engineOf guardedClauses) "a" "f" List.mem_cons_self⟩
  intro clause member
  simp only [guardedClauses, List.mem_cons, List.not_mem_nil, or_false] at member
  rcases member with rfl | rfl | rfl
  · exact ⟨_, _, ⟨Or.inl ⟨rfl, rfl⟩, rfl, rfl⟩, [0], ⟨rfl, by decide⟩, by decide⟩
  · exact ⟨_, _, ⟨Or.inr ⟨rfl, rfl⟩, rfl, rfl⟩, [0x41], ⟨rfl, by decide⟩, by decide⟩
  · exact ⟨_, _, ⟨Or.inl ⟨rfl, rfl⟩, rfl, rfl⟩, [0, 6], ⟨rfl, by decide⟩, by decide⟩

/-- The plan for a formula of clauses that have to hold, each of which compares a present integer with
a constant or is met by growing, unlocks it if different clauses have no cells in common and the
lengths of the ramps and one more fit 32 bits. -/
theorem ramp_plan_succeeds {σ : Type} (clauses : List Clause)
    (plain : ∀ clause ∈ clauses, clause.flag = .plain) (console : Console σ)
    (layout : Layout console.ram.size clauses) (sums : sumsFit clauses = true)
    (solvable : ∀ clause ∈ clauses,
      (∃ access number, clause.ComparesInteger access number ∧ clause.CanBe access true) ∨
      ∃ access past, clause.Grows access past)
    (engine : Engine) (id formula : String)
    (loaded : Achievement.fresh id formula clauses ∈ engine.achievements) :
    Succeeds id ((build clauses).watch idle id console engine) := by
  have flags : ∀ clause ∈ clauses, clause.flag ∈ Flag.plannedFlags := by
    intro clause member
    rw [plain clause member]
    decide
  have planned : ∀ clause ∈ clauses, clause.Planned := by
    intro clause member
    have flag := plain clause member
    rcases solvable clause member with ⟨access, number, compares, possible⟩ | ⟨access, past, grows⟩
    · exact .static access number compares (by rw [flag]; exact possible)
    · exact .growing access past grows (by rw [flag]; rfl)
  have plannable : Plannable console.ram.size clauses := ⟨layout, flags, planned, sums⟩
  exact plannable.succeeds console rfl engine id formula loaded

/-- A value that has to differ from its change, one that has to be ahead of what it was two frames
ago as often as a single bit can be, and a constant. -/
def growingClauses : List Clause :=
  [{ flag := .plain, left := .memory { encoding := .byte, address := 0 }, comparison := .ne
     right := .memory { encoding := .byte, address := 0, modifiers := { delta := true } }
     target := 3 },
    { flag := .plain, left := .memory { encoding := .bit ⟨2, by decide⟩, address := 1 }
      comparison := .gt
      right := .memory
        { encoding := .bit ⟨2, by decide⟩, address := 1, modifiers := { prior := true } }
      target := 2 },
    { flag := .plain, left := .memory { encoding := .lowNibble, address := 2 }, comparison := .ge
      right := .constant (.int 15), target := 9 }]

theorem growing_plan_succeeds :
    Layout setConsole.ram.size growingClauses ∧
      Succeeds "a" ((build growingClauses).watch idle "a" setConsole (engineOf growingClauses)) := by
  have layout : Layout setConsole.ram.size growingClauses := by decide
  refine ⟨layout, ramp_plan_succeeds growingClauses (by decide) setConsole layout (by decide) ?_
    (engineOf growingClauses) "a" "f" List.mem_cons_self⟩
  intro clause member
  simp only [growingClauses, List.mem_cons, List.not_mem_nil, or_false] at member
  rcases member with rfl | rfl | rfl
  · exact Or.inr ⟨_, _, ⟨by decide, rfl, rfl, rfl, rfl, by decide, by decide⟩⟩
  · exact Or.inr ⟨_, _, ⟨by decide, rfl, rfl, rfl, rfl, by decide, by decide⟩⟩
  · exact Or.inl ⟨_, _, ⟨Or.inl ⟨rfl, rfl⟩, rfl, rfl⟩, [15], ⟨rfl, by decide⟩, by decide⟩

end Plan

end Achievements
