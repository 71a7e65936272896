import Achievements.Proofs.Progress.Standalone

/-!
# Hits are counts of frames

For formulas in which every clause stands alone, the counters that an achievement keeps from frame
to frame are determined by the frames it has seen: `Timeline` counts these without any state. The
agreement is `Timeline.Follows`, an invariant of the run up to the frame that unlocks.
-/

set_option autoImplicit false

namespace Achievements

namespace Counter

/-- The number of hits at which a counter stops. -/
def cap (target : UInt32) : Nat :=
  max 1 target.toNat

/-- The counter after so many hits. -/
def afterHits (target : UInt32) (count : Nat) : Counter :=
  ofHits target (UInt32.ofNat (min (cap target) count))

theorem cap_lt (target : UInt32) : cap target < 4294967296 := by
  have bound := target.toNat_lt
  unfold cap
  omega

theorem hits_after_hits (target : UInt32) (count : Nat) :
    (afterHits target count).hits.toNat = min (cap target) count := by
  have bound := cap_lt target
  have fits : min (cap target) count < UInt32.size := by
    rw [show UInt32.size = 4294967296 from rfl]
    omega
  exact UInt32.toNat_ofNat_of_lt fits

theorem reached_iff (target hits : UInt32) :
    reached target hits = decide (cap target ≤ hits.toNat) := by
  unfold reached cap
  by_cases untargeted : target = 0
  · subst untargeted
    simp [UInt32.lt_iff_toNat_lt, Nat.one_le_iff_ne_zero, Nat.pos_iff_ne_zero]
  · have positive : target.toNat ≠ 0 := fun zero => untargeted (UInt32.toNat_inj.mp zero)
    simp only [untargeted, if_false, UInt32.le_iff_toNat_le]
    congr 1
    rw [Nat.max_eq_right (by omega)]

theorem met_after_hits (target : UInt32) (count : Nat) :
    (afterHits target count).met = decide (cap target ≤ count) := by
  rw [afterHits, ofHits, reached_iff]
  have hits := hits_after_hits target count
  simp only [afterHits, ofHits] at hits
  rw [hits]
  simp only [Nat.le_min, Nat.le_refl, true_and]

theorem after_no_hits (target : UInt32) : afterHits target 0 = {} := by
  have unmet := met_after_hits target 0
  have positive : ¬ cap target ≤ 0 := by unfold cap; omega
  rw [decide_eq_false positive] at unmet
  simp only [afterHits, ofHits, Nat.min_zero] at unmet ⊢
  rw [unmet]
  rfl

theorem accrue_after_hits (target : UInt32) (count : Nat) (truth : Bool) :
    (afterHits target count).accrue target truth = afterHits target (count + truth.toNat) := by
  have hits := hits_after_hits target count
  have bound := cap_lt target
  have accrued : ∀ counter : UInt32, counter.toNat = min (cap target) (count + truth.toNat) →
      ofHits target counter = afterHits target (count + truth.toNat) := by
    intro counter same
    rw [afterHits, ← same, UInt32.ofNat_toNat]
  unfold accrue
  cases truth with
  | false =>
      have unchanged : ofHits target (afterHits target count).hits = afterHits target count :=
        accrued _ hits
      simp [unchanged]
  | true =>
      by_cases untargeted : target = 0
      · have single : cap target = 1 := by rw [untargeted]; rfl
        simp only [untargeted, if_true]
        rw [untargeted] at accrued single
        exact accrued 1 (by rw [single]; simp)
      · have targeted : cap target = target.toNat := by
          have positive : target.toNat ≠ 0 := fun zero => untargeted (UInt32.toNat_inj.mp zero)
          unfold cap
          omega
        simp only [untargeted, if_false, Bool.true_and, decide_eq_true_eq]
        apply accrued
        simp only [Bool.toNat_true]
        split
        · rename_i below
          rw [UInt32.lt_iff_toNat_lt] at below
          rw [UInt32.toNat_add, UInt32.toNat_one]
          omega
        · rename_i notBelow
          rw [UInt32.lt_iff_toNat_lt] at notBelow
          omega

end Counter

namespace Achievement

/-- The achievement after the first so many frames. -/
def after (achievement : Achievement) (frames : Nat → History) : Nat → Achievement
  | 0 => achievement
  | count + 1 => ((after achievement frames count).step (frames count)).1

/-- Does the achievement unlock on a frame? -/
def unlocksOn (achievement : Achievement) (frames : Nat → History) (frame : Nat) : Bool :=
  ((achievement.after frames frame).step (frames frame)).2

end Achievement

/-- The comparison of a clause for which nothing is accumulated, while nothing is remembered. -/
def Clause.holdsOn (clause : Clause) (history : History) : Bool :=
  Sight.holdsAlone ⟨history, none⟩ clause

/-- A formula and the frames on which it is evaluated. -/
structure Timeline where
  clauses : List Clause
  frames : Nat → History

namespace Timeline

variable (timeline : Timeline)

/-- Does a clause hold on a frame? -/
def holds (clause : Clause) (frame : Nat) : Bool :=
  clause.holdsOn (timeline.frames frame)

def isPaused (frame : Nat) : Bool :=
  timeline.clauses.any fun clause => clause.flag == .pauseIf && timeline.holds clause frame

def isReset (frame : Nat) : Bool :=
  !timeline.isPaused frame &&
    timeline.clauses.any fun clause => clause.flag == .resetIf && timeline.holds clause frame

def isActive (frame : Nat) : Bool :=
  !timeline.isPaused frame && !timeline.isReset frame

/-- How many of the first frames are active, later than the last reset among them, and pass a
test. -/
def count (test : Nat → Bool) (frames : Nat) : Nat :=
  (List.range frames).countP fun frame =>
    timeline.isActive frame && test frame &&
      (List.range frames).all fun other => other < frame || !timeline.isReset other

/-- The hits of a clause that counts on every active frame. -/
def hits (clause : Clause) (frames : Nat) : Nat :=
  timeline.count (timeline.holds clause) frames

/-- Have all clauses other than triggers enough hits after so many frames? -/
def isPrimed (frames : Nat) : Bool :=
  timeline.clauses.all fun clause =>
    !clause.flag.isCounted || Counter.cap clause.target ≤ timeline.hits clause frames

/-- The hits of a trigger, which counts on active frames after which all else has enough hits. -/
def triggerHits (clause : Clause) (frames : Nat) : Nat :=
  timeline.count (fun frame => timeline.isPrimed (frame + 1) && timeline.holds clause frame) frames

/-- Have all clauses, triggers included, enough hits after so many frames? -/
def isComplete (frames : Nat) : Bool :=
  timeline.isPrimed frames && timeline.clauses.all fun clause =>
    !(clause.flag == .trigger) || Counter.cap clause.target ≤ timeline.triggerHits clause frames

theorem count_succ (test : Nat → Bool) (frames : Nat) :
    timeline.count test (frames + 1) =
      if timeline.isReset frames then 0
      else timeline.count test frames + (timeline.isActive frames && test frames).toNat := by
  unfold count
  rw [List.range_succ, List.countP_append, List.countP_singleton]
  by_cases reset : timeline.isReset frames = true
  · -- The new frame is a reset later than all others, so none of them counts any more.
    have inactive : timeline.isActive frames = false := by simp [isActive, reset]
    have earlier : (List.range frames).countP (fun frame =>
        timeline.isActive frame && test frame && (List.range frames ++ [frames]).all fun other =>
          other < frame || !timeline.isReset other) = 0 := by
      rw [List.countP_eq_zero]
      intro frame member
      have before := List.mem_range.mp member
      simp [reset, Nat.not_lt.mpr (Nat.le_of_lt before)]
    rw [earlier, if_pos reset]
    simp [inactive]
  · have earlier : ∀ frame, ((List.range frames ++ [frames]).all fun other =>
          decide (other < frame) || !timeline.isReset other) =
        (List.range frames).all fun other => decide (other < frame) || !timeline.isReset other := by
      intro frame
      simp [reset]
    have own : ((List.range frames).all fun other =>
        decide (other < frames) || !timeline.isReset other) = true := by
      rw [List.all_eq_true]
      intro other member
      simp [List.mem_range.mp member]
    rw [if_neg reset]
    simp only [earlier, own, Bool.and_true]
    cases timeline.isActive frames && test frames <;> rfl

theorem count_zero (test : Nat → Bool) : timeline.count test 0 = 0 := rfl

/-- A frame that is not active leaves a count as it is, or undoes it. -/
theorem count_of_inactive (test : Nat → Bool) {frames : Nat}
    (inactive : timeline.isActive frames = false) (unreset : timeline.isReset frames = false) :
    timeline.count test (frames + 1) = timeline.count test frames := by
  rw [count_succ, unreset, inactive]
  rfl

theorem unreset_of_active {frame : Nat} (active : timeline.isActive frame = true) :
    timeline.isReset frame = false := by
  simp only [isActive, Bool.and_eq_true, Bool.not_eq_true'] at active
  exact active.2

theorem count_of_active (test : Nat → Bool) {frame : Nat}
    (active : timeline.isActive frame = true) :
    timeline.count test (frame + 1) = timeline.count test frame + (test frame).toNat := by
  rw [count_succ, timeline.unreset_of_active active, active]
  rfl

/-- Active frames take nothing off a count. -/
theorem count_le_count (test : Nat → Bool) {first frames : Nat} (before : first ≤ frames)
    (active : ∀ frame, first ≤ frame → frame < frames → timeline.isActive frame = true) :
    timeline.count test first ≤ timeline.count test frames := by
  induction frames with
  | zero =>
      have none : first = 0 := Nat.le_zero.mp before
      subst none
      exact Nat.le_refl _
  | succ frames ih =>
      rcases Nat.lt_or_eq_of_le before with strict | rfl
      · have earlier := ih (Nat.le_of_lt_succ strict) fun frame lower upper =>
          active frame lower (Nat.lt_succ_of_lt upper)
        rw [timeline.count_of_active test (active frames (by omega) (Nat.lt_succ_self frames))]
        omega
      · exact Nat.le_refl _

/-- A run of active frames that pass a test counts in full. -/
theorem le_count (test : Nat → Bool) (first frames : Nat) (before : first ≤ frames)
    (passing : ∀ frame, first ≤ frame → frame < frames →
      timeline.isActive frame = true ∧ test frame = true) :
    frames - first ≤ timeline.count test frames := by
  induction frames with
  | zero => simp
  | succ frames ih =>
      by_cases starts : first = frames + 1
      · simp [starts]
      · have counted := ih (by omega) fun frame lower upper =>
          passing frame lower (Nat.lt_succ_of_lt upper)
        obtain ⟨active, passes⟩ := passing frames (by omega) (Nat.lt_succ_self frames)
        rw [timeline.count_of_active test active, passes, Bool.toNat_true]
        omega

/-- The counter of a clause after so many frames. Only clauses that have to hold are counted. -/
def counter (clause : Clause) (frames : Nat) : Counter :=
  if clause.flag.isCounted then .afterHits clause.target (timeline.hits clause frames)
  else if clause.flag = .trigger then .afterHits clause.target (timeline.triggerHits clause frames)
  else {}

/-- The conditions of the formula after so many frames. -/
def conditions (frames : Nat) : List Condition :=
  timeline.clauses.map fun clause => ⟨clause, timeline.counter clause frames⟩

/-- An achievement that is still locked after so many frames and has counted them right. -/
structure Follows (achievement : Achievement) (frames : Nat) : Prop where
  locked : achievement.unlocked = false
  forgetful : achievement.remembered = none
  counted : achievement.conditions = timeline.conditions frames

/-- Every clause stands alone, and none makes its neighbour start over on a frame. -/
structure IsSteady (frame : Nat) : Prop where
  alone : ∀ clause ∈ timeline.clauses, clause.flag.standsAlone = true
  quiet : ∀ clause ∈ timeline.clauses, clause.flag = .resetNextIf →
    timeline.holds clause frame = false

theorem counter_of_counted {clause : Clause} (counted : clause.flag.isCounted = true)
    (frames : Nat) :
    timeline.counter clause frames = .afterHits clause.target (timeline.hits clause frames) := by
  rw [counter, if_pos counted]

theorem counter_of_trigger {clause : Clause} (trigger : clause.flag = .trigger) (frames : Nat) :
    timeline.counter clause frames =
      .afterHits clause.target (timeline.triggerHits clause frames) := by
  have uncounted : ¬ clause.flag.isCounted = true := by rw [trigger]; decide
  rw [counter, if_neg uncounted, if_pos trigger]

theorem counter_zero (clause : Clause) : timeline.counter clause 0 = {} := by
  unfold counter hits triggerHits
  simp only [count_zero, Counter.after_no_hits, ite_self]

theorem follows_fresh (id formula : String) :
    timeline.Follows (.fresh id formula timeline.clauses) 0 where
  locked := rfl
  forgetful := rfl
  counted := by
    simp only [Achievement.fresh, conditions, counter_zero]
    rfl

theorem counter_of_reset (clause : Clause) {frame : Nat} (reset : timeline.isReset frame = true) :
    timeline.counter clause (frame + 1) = {} := by
  unfold counter hits triggerHits
  simp only [count_succ, reset, if_true, Counter.after_no_hits, ite_self]

theorem counter_of_inactive (clause : Clause) {frame : Nat}
    (inactive : timeline.isActive frame = false) (unreset : timeline.isReset frame = false) :
    timeline.counter clause (frame + 1) = timeline.counter clause frame := by
  unfold counter hits triggerHits
  rw [count_of_inactive _ _ inactive unreset, count_of_inactive _ _ inactive unreset]

theorem conditions_of_inactive {frame : Nat} (inactive : timeline.isActive frame = false)
    (unreset : timeline.isReset frame = false) :
    timeline.conditions (frame + 1) = timeline.conditions frame := by
  unfold conditions
  simp only [timeline.counter_of_inactive _ inactive unreset]

namespace Follows

variable {timeline} {achievement : Achievement} {frame : Nat}

theorem is_paused (follows : timeline.Follows achievement frame) :
    achievement.isPaused (timeline.frames frame) = timeline.isPaused frame := by
  rw [Achievement.isPaused, follows.counted, follows.forgetful, conditions, List.any_map]
  rfl

theorem any_resets (follows : timeline.Follows achievement frame) :
    achievement.conditions.any
        (Visit.resets ⟨timeline.frames frame, achievement.remembered⟩) =
      timeline.clauses.any fun clause => clause.flag == .resetIf && timeline.holds clause frame := by
  rw [follows.counted, follows.forgetful, conditions, List.any_map]
  rfl

/-- Reset conditions are those of a frame that resets. -/
theorem conditions_of_reset (follows : timeline.Follows achievement frame)
    (reset : timeline.isReset frame = true) :
    achievement.resetProgress.conditions = timeline.conditions (frame + 1) := by
  rw [Achievement.resetProgress, follows.counted, conditions, conditions, List.map_map]
  apply List.map_congr_left
  intro clause _
  rw [timeline.counter_of_reset clause reset]
  rfl

theorem stands_alone (follows : timeline.Follows achievement frame)
    (steady : timeline.IsSteady frame) : achievement.StandsAlone (timeline.frames frame) where
  alone := by
    rw [follows.counted]
    intro condition member
    obtain ⟨clause, inClauses, rfl⟩ := List.mem_map.mp member
    exact steady.alone clause inClauses
  steady := by
    rw [follows.counted, follows.forgetful]
    intro condition member
    obtain ⟨clause, inClauses, rfl⟩ := List.mem_map.mp member
    exact steady.quiet clause inClauses

/-- One more active frame is one more hit of every clause that holds on it. -/
theorem accrue_counted (active : timeline.isActive frame = true) {clause : Clause}
    (counted : clause.flag.isCounted = true) :
    (timeline.counter clause frame).accrue clause.target (timeline.holds clause frame) =
      timeline.counter clause (frame + 1) := by
  rw [counter_of_counted _ counted, counter_of_counted _ counted, Counter.accrue_after_hits]
  unfold hits
  rw [timeline.count_of_active _ active]

/-- For a trigger it is one if all else has enough hits by then. -/
theorem accrue_trigger (active : timeline.isActive frame = true)
    (primed : timeline.isPrimed (frame + 1) = true) {clause : Clause}
    (trigger : clause.flag = .trigger) :
    (timeline.counter clause frame).accrue clause.target (timeline.holds clause frame) =
      timeline.counter clause (frame + 1) := by
  rw [counter_of_trigger _ trigger, counter_of_trigger _ trigger, Counter.accrue_after_hits]
  unfold triggerHits
  rw [timeline.count_of_active _ active, primed, Bool.true_and]

theorem keep_trigger (active : timeline.isActive frame = true)
    (unprimed : timeline.isPrimed (frame + 1) = false) {clause : Clause}
    (trigger : clause.flag = .trigger) :
    timeline.counter clause frame = timeline.counter clause (frame + 1) := by
  rw [counter_of_trigger _ trigger, counter_of_trigger _ trigger]
  unfold triggerHits
  rw [timeline.count_of_active _ active, unprimed, Bool.false_and, Bool.toNat_false, Nat.add_zero]

theorem primes_eq (follows : timeline.Follows achievement frame)
    (active : timeline.isActive frame = true) :
    achievement.primes (timeline.frames frame) = timeline.isPrimed (frame + 1) := by
  rw [Achievement.primes, follows.counted, follows.forgetful, conditions, List.all_map, isPrimed]
  congr 1
  funext clause
  by_cases counted : clause.flag.isCounted = true
  · have met := Counter.met_after_hits clause.target (timeline.hits clause (frame + 1))
    rw [← timeline.counter_of_counted counted, ← accrue_counted active counted] at met
    simp only [Function.comp_apply, counted, Bool.not_true, Bool.false_or]
    exact met
  · simp [counted]

theorem triggers_meet_eq (follows : timeline.Follows achievement frame)
    (active : timeline.isActive frame = true) (primed : timeline.isPrimed (frame + 1) = true) :
    achievement.triggersMeet (timeline.frames frame) = timeline.clauses.all fun clause =>
      !(clause.flag == .trigger) ||
        Counter.cap clause.target ≤ timeline.triggerHits clause (frame + 1) := by
  rw [Achievement.triggersMeet, follows.counted, follows.forgetful, conditions, List.all_map]
  congr 1
  funext clause
  by_cases trigger : clause.flag = .trigger
  · have met := Counter.met_after_hits clause.target (timeline.triggerHits clause (frame + 1))
    rw [← timeline.counter_of_trigger trigger, ← accrue_trigger active primed trigger] at met
    simp only [Function.comp_apply, trigger, beq_self_eq_true, Bool.not_true, Bool.false_or]
    exact met
  · have other : (clause.flag == Flag.trigger) = false := beq_false_of_ne trigger
    simp [other]

theorem pass_eq (active : timeline.isActive frame = true) (clause : Clause) :
    Condition.pass ⟨timeline.frames frame, none⟩ (timeline.isPrimed (frame + 1))
        ⟨clause, timeline.counter clause frame⟩ = ⟨clause, timeline.counter clause (frame + 1)⟩ := by
  unfold Condition.pass
  by_cases counted : clause.flag.isCounted = true
  · rw [if_pos (by simp [counted])]
    exact congrArg (Condition.mk clause) (accrue_counted active counted)
  · by_cases trigger : clause.flag = .trigger
    · cases primed : timeline.isPrimed (frame + 1) with
      | true =>
          rw [if_pos (by simp [trigger])]
          exact congrArg (Condition.mk clause) (accrue_trigger active primed trigger)
      | false =>
          rw [if_neg (by simp [counted])]
          exact congrArg (Condition.mk clause) (keep_trigger active primed trigger)
    · rw [if_neg (by simp [counted, trigger])]
      unfold counter
      simp [counted, trigger]

/-- One frame of an achievement that has counted right so far: it counts right once more, and it
unlocks exactly if the frame is active and everything has enough hits by now. -/
theorem step (follows : timeline.Follows achievement frame) (steady : timeline.IsSteady frame) :
    let next := achievement.step (timeline.frames frame)
    next.2 = (timeline.isActive frame && timeline.isComplete (frame + 1)) ∧
      next.1.conditions = timeline.conditions (frame + 1) ∧
      (next.2 = false → timeline.Follows next.1 (frame + 1)) := by
  intro next
  have standing := follows.stands_alone steady
  cases paused : timeline.isPaused frame with
  | true =>
      have unreset : timeline.isReset frame = false := by simp [isReset, paused]
      have inactive : timeline.isActive frame = false := by simp [isActive, paused]
      have kept := timeline.conditions_of_inactive inactive unreset
      have stepped : next = ({ achievement with primed := false }, false) := by
        simp [next, Achievement.step, follows.locked, follows.is_paused, paused]
      rw [stepped, inactive, kept]
      exact ⟨rfl, follows.counted, fun _ =>
        ⟨follows.locked, follows.forgetful, by rw [kept]; exact follows.counted⟩⟩
  | false =>
      have unpaused : achievement.isPaused (timeline.frames frame) = false := by
        rw [follows.is_paused, paused]
      cases reset : timeline.isReset frame with
      | true =>
          have resets := follows.any_resets
          have inactive : timeline.isActive frame = false := by simp [isActive, reset]
          have cleared := follows.conditions_of_reset reset
          simp only [isReset, paused, Bool.not_false, Bool.true_and] at reset
          rw [reset] at resets
          have stepped : next = (achievement.resetProgress, false) :=
            Achievement.step_of_reset standing follows.locked unpaused resets
          rw [stepped, inactive]
          exact ⟨rfl, cleared, fun _ => ⟨follows.locked, rfl, cleared⟩⟩
      | false =>
          have active : timeline.isActive frame = true := by simp [isActive, paused, reset]
          have unreset := follows.any_resets
          simp only [isReset, paused, Bool.not_false, Bool.true_and] at reset
          rw [reset] at unreset
          obtain ⟨unlocks, locks, remembers, counts⟩ :=
            Achievement.step_of_active standing follows.locked unpaused unreset
          rw [follows.primes_eq active] at unlocks
          rw [follows.primes_eq active, follows.counted, follows.forgetful, conditions,
            List.map_map] at counts
          have conditionsAfter : next.1.conditions = timeline.conditions (frame + 1) :=
            counts.trans (List.map_congr_left fun clause _ => pass_eq active clause)
          have unlocked :
              next.2 = (timeline.isActive frame && timeline.isComplete (frame + 1)) := by
            rw [active, Bool.true_and, isComplete]
            refine unlocks.trans ?_
            cases primed : timeline.isPrimed (frame + 1) with
            | true => rw [follows.triggers_meet_eq active primed]
            | false => rfl
          exact ⟨unlocked, conditionsAfter, fun still =>
            ⟨locks.trans still, remembers.trans follows.forgetful, conditionsAfter⟩⟩

/-- A run of frames on none of which the achievement unlocked. -/
theorem after_frames (id formula : String) (frames : Nat)
    (steady : ∀ frame < frames, timeline.IsSteady frame)
    (running : ∀ frame < frames,
      (Achievement.fresh id formula timeline.clauses).unlocksOn timeline.frames frame = false) :
    timeline.Follows ((Achievement.fresh id formula timeline.clauses).after timeline.frames frames)
      frames := by
  induction frames with
  | zero => exact timeline.follows_fresh id formula
  | succ frames ih =>
      have follows := ih (fun frame before => steady frame (Nat.lt_succ_of_lt before))
        fun frame before => running frame (Nat.lt_succ_of_lt before)
      obtain ⟨_, _, continues⟩ := follows.step (steady frames (Nat.lt_succ_self frames))
      exact continues (running frames (Nat.lt_succ_self frames))

end Follows

/-- A locked achievement unlocks exactly on an active frame that completes it. -/
theorem unlocks_on_iff (id formula : String) (frame : Nat)
    (steady : ∀ earlier ≤ frame, timeline.IsSteady earlier)
    (running : ∀ earlier < frame,
      (Achievement.fresh id formula timeline.clauses).unlocksOn timeline.frames earlier = false) :
    (Achievement.fresh id formula timeline.clauses).unlocksOn timeline.frames frame = true ↔
      timeline.isActive frame = true ∧ timeline.isComplete (frame + 1) = true := by
  have follows : timeline.Follows _ frame := Follows.after_frames id formula frame
    (fun earlier before => steady earlier (Nat.le_of_lt before)) running
  have unlocks := (follows.step (steady frame (Nat.le_refl frame))).1
  rw [Achievement.unlocksOn, unlocks, Bool.and_eq_true]

/-- It stays locked as long as no active frame completes it. -/
theorem running_while_incomplete (id formula : String) (frames : Nat)
    (steady : ∀ earlier < frames, timeline.IsSteady earlier)
    (incomplete : ∀ earlier < frames, ¬ (timeline.isActive earlier = true ∧
      timeline.isComplete (earlier + 1) = true)) :
    ∀ earlier < frames,
      (Achievement.fresh id formula timeline.clauses).unlocksOn timeline.frames earlier = false := by
  intro earlier before
  induction earlier using Nat.strongRecOn with
  | ind earlier ih =>
      have unlocks := timeline.unlocks_on_iff id formula earlier
        (fun other upTo => steady other (Nat.lt_of_le_of_lt upTo before))
        fun other less => ih other less (Nat.lt_trans less before)
      exact Bool.eq_false_iff.mpr fun unlocked => incomplete earlier before (unlocks.mp unlocked)

/-- If everything has enough hits on an active frame, the achievement unlocks by then. -/
theorem unlocks_by (id formula : String) (frame : Nat)
    (steady : ∀ earlier ≤ frame, timeline.IsSteady earlier)
    (active : timeline.isActive frame = true)
    (complete : timeline.isComplete (frame + 1) = true) :
    ∃ earlier ≤ frame,
      (Achievement.fresh id formula timeline.clauses).unlocksOn timeline.frames earlier = true := by
  apply Classical.byContradiction
  intro never
  have running : ∀ earlier ≤ frame,
      (Achievement.fresh id formula timeline.clauses).unlocksOn timeline.frames earlier = false := by
    intro earlier before
    exact Bool.eq_false_iff.mpr fun unlocks => never ⟨earlier, before, unlocks⟩
  have unlocks := (timeline.unlocks_on_iff id formula frame steady fun earlier before =>
    running earlier (Nat.le_of_lt before)).mpr ⟨active, complete⟩
  exact never ⟨frame, Nat.le_refl frame, unlocks⟩

end Timeline

namespace Achievement

theorem unlocked_after_conclude (achievement : Achievement) (history : History) (visit : Visit) :
    (achievement.conclude history visit).1.unlocked =
      ((achievement.conclude history visit).2 || achievement.unlocked) := by
  unfold conclude
  simp only
  split <;> rfl

/-- Nothing but an unlock that is reported changes whether an achievement is unlocked. -/
theorem unlocked_after_step (achievement : Achievement) (history : History) :
    (achievement.step history).1.unlocked =
      ((achievement.step history).2 || achievement.unlocked) := by
  unfold step
  split
  · rfl
  split
  · rfl
  split
  · rfl
  · exact unlocked_after_conclude _ _ _

theorem unlocked_of_step {history : History} {achievement : Achievement}
    (unlocks : (achievement.step history).2 = true) :
    (achievement.step history).1.unlocked = true := by
  rw [unlocked_after_step, unlocks]
  rfl

theorem step_of_unlocked {achievement : Achievement} (unlocked : achievement.unlocked = true)
    (history : History) : achievement.step history = (achievement, false) := by
  rw [step, if_pos unlocked]

theorem after_of_unlocked {achievement : Achievement} {frames : Nat → History} {first later : Nat}
    (before : first ≤ later) (unlocked : (achievement.after frames first).unlocked = true) :
    (achievement.after frames later).unlocked = true := by
  induction later with
  | zero => rwa [Nat.le_zero.mp before] at unlocked
  | succ later ih =>
      rcases Nat.lt_or_eq_of_le before with strict | rfl
      · have still := ih (Nat.le_of_lt_succ strict)
        rw [after, step_of_unlocked still]
        exact still
      · exact unlocked

/-- An achievement unlocks on at most one frame. -/
theorem running_before_unlock {achievement : Achievement} {frames : Nat → History} {frame : Nat}
    (unlocks : achievement.unlocksOn frames frame = true) :
    ∀ earlier < frame, achievement.unlocksOn frames earlier = false := by
  intro earlier before
  apply Bool.eq_false_iff.mpr
  intro unlocked
  have already : (achievement.after frames (earlier + 1)).unlocked = true :=
    unlocked_of_step unlocked
  have still := after_of_unlocked (Nat.succ_le_of_lt before) already
  rw [unlocksOn, step_of_unlocked still] at unlocks
  cases unlocks

end Achievement

namespace Timeline

/-- Flags of clauses whose hits are counts of frames. -/
def countingFlags : List Flag :=
  [.plain, .measured, .measuredPercent, .measuredIf, .pauseIf, .resetIf, .trigger]

theorem steady_of_counting_flags {timeline : Timeline}
    (flags : ∀ clause ∈ timeline.clauses, clause.flag ∈ countingFlags) (frame : Nat) :
    timeline.IsSteady frame where
  alone := by
    intro clause member
    have flag := flags clause member
    cases same : clause.flag <;> first | rfl | exact absurd (same ▸ flag) (by decide)
  quiet := by
    intro clause member resetNext
    have flag := flags clause member
    rw [resetNext] at flag
    exact absurd flag (by decide)

/-- Without chains, accumulators and neighbours that start over, hits are counts of frames: of the
active frames since the last reset on which the clause held, up to its target, and for a trigger of
those only on which all other clauses had enough hits. The achievement unlocks on the first active
frame on which all clauses have enough of them. -/
theorem hits_are_counts_of_frames (id formula : String) (timeline : Timeline)
    (flags : ∀ clause ∈ timeline.clauses, clause.flag ∈ countingFlags) (frame : Nat) :
    let start := Achievement.fresh id formula timeline.clauses
    let conditions := (start.after timeline.frames (frame + 1)).conditions
    ((∀ earlier < frame, start.unlocksOn timeline.frames earlier = false) →
      conditions.map Condition.clause = timeline.clauses ∧
      ∀ condition ∈ conditions,
        (condition.clause.flag ∈ [.plain, .measured, .measuredPercent] →
          condition.counter.hits.toNat = min (Counter.cap condition.clause.target)
            (timeline.hits condition.clause (frame + 1))) ∧
        (condition.clause.flag = .trigger →
          condition.counter.hits.toNat = min (Counter.cap condition.clause.target)
            (timeline.triggerHits condition.clause (frame + 1)))) ∧
    (start.unlocksOn timeline.frames frame = true ↔
      (timeline.isActive frame = true ∧ timeline.isComplete (frame + 1) = true) ∧
      ∀ earlier < frame, ¬ (timeline.isActive earlier = true ∧
        timeline.isComplete (earlier + 1) = true)) := by
  intro start conditions
  have steady := steady_of_counting_flags flags
  have follows : ∀ frames,
      (∀ earlier < frames, start.unlocksOn timeline.frames earlier = false) →
        timeline.Follows (start.after timeline.frames frames) frames := fun frames running =>
    Follows.after_frames id formula frames (fun earlier _ => steady earlier) running
  constructor
  · intro running
    have counted : conditions = timeline.conditions (frame + 1) :=
      ((follows frame running).step (steady frame)).2.1
    constructor
    · rw [counted, Timeline.conditions, List.map_map]
      exact List.map_id _
    · rw [counted]
      intro condition member
      obtain ⟨clause, _, rfl⟩ := List.mem_map.mp member
      constructor
      · intro flag
        have counts : clause.flag.isCounted = true := by
          simp only [List.mem_cons, List.not_mem_nil, or_false] at flag
          rcases flag with flag | flag | flag <;> rw [flag] <;> rfl
        rw [timeline.counter_of_counted counts]
        exact Counter.hits_after_hits _ _
      · intro trigger
        rw [timeline.counter_of_trigger trigger]
        exact Counter.hits_after_hits _ _
  · have unlocksIff := fun (running : ∀ earlier < frame,
        start.unlocksOn timeline.frames earlier = false) =>
      timeline.unlocks_on_iff id formula frame (fun earlier _ => steady earlier) running
    constructor
    · intro unlocks
      have running := Achievement.running_before_unlock unlocks
      refine ⟨(unlocksIff running).mp unlocks, ?_⟩
      intro earlier before complete
      have unlocked := (timeline.unlocks_on_iff id formula earlier (fun other _ => steady other)
        fun other less => running other (Nat.lt_trans less before)).mpr complete
      exact Bool.false_ne_true ((running earlier before).symm.trans unlocked)
    · intro ⟨completes, incomplete⟩
      exact (unlocksIff (timeline.running_while_incomplete id formula frame
        (fun earlier _ => steady earlier) incomplete)).mpr completes

/-- A reset, a clause with two hits and a trigger. The reset holds on the second frame only, and the
trigger on the fifth. -/
def guardedCount : Timeline where
  clauses :=
    [{ flag := .resetIf, left := .memory { encoding := .byte, address := 0 }
       comparison := .eq, right := .constant (.int 1) },
      { flag := .plain, left := .memory { encoding := .byte, address := 1 }
        comparison := .eq, right := .constant (.int 1), target := 2 },
      { flag := .trigger, left := .memory { encoding := .byte, address := 2 }
        comparison := .eq, right := .constant (.int 1) }]
  frames := fun frame =>
    let bytes : Array UInt8 :=
      if frame = 1 then #[1, 1, 1] else if frame = 4 then #[0, 0, 1] else #[0, 1, 0]
    ⟨bytes, bytes, bytes⟩

theorem guarded_count_unlocks :
    (∀ clause ∈ guardedCount.clauses, clause.flag ∈ countingFlags) ∧
      (Achievement.fresh "a" "f" guardedCount.clauses).unlocksOn guardedCount.frames 4 = true := by
  have flags : ∀ clause ∈ guardedCount.clauses, clause.flag ∈ countingFlags := by decide
  exact ⟨flags, (hits_are_counts_of_frames "a" "f" guardedCount flags 4).2.mpr (by decide)⟩

end Timeline

end Achievements
