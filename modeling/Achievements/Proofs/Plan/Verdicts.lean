import Achievements.Proofs.Engine.Records
import Achievements.Proofs.Engine.Reports
import Achievements.Proofs.Plan.Ends
import Achievements.Verification

/-!
# Verdicts and the state of a verified set

Every entry of a set is played before an engine of its own, and what the engines have saved is added
up. A run is successful exactly if the achievement that it was for is unlocked in the end, so each
entry adds either its id or a record under its id, and nothing else. The first entry that is not
played, for want of a plan or because its plan is too long, is the last one that is looked at.
`AchievementSet.verdicts_agree_with_state` draws the consequences for a whole set.
-/

set_option autoImplicit false

namespace Achievements

/-! ## Saved states that are added up -/

namespace SavedState

theorem eq_of_parts {first second : SavedState} (schema : first.schema = second.schema)
    (completed : first.completed = second.completed)
    (found : ∀ id, first.progress.find? id = second.progress.find? id) : first = second := by
  cases first
  cases second
  cases schema
  cases completed
  cases IdMap.eq_of_find found
  rfl

theorem find_of_merge (state other : SavedState) (id : String) :
    (state.merge other).progress.find? id =
      (other.progress.find? id).or (state.progress.find? id) :=
  IdMap.find_of_added state.progress other.progress id

theorem merge_assoc (first second third : SavedState) :
    (first.merge second).merge third = first.merge (second.merge third) := by
  apply eq_of_parts
  · rfl
  · exact List.append_assoc _ _ _
  · intro id
    simp only [find_of_merge, Option.or_assoc]

theorem merge_empty (state : SavedState) : state.merge empty = state :=
  eq_of_parts rfl (List.append_nil _) fun _ => rfl

/-- Adding states up from some state on is adding their sum to it. -/
theorem foldl_merge (state : SavedState) (states : List SavedState) :
    states.foldl merge state = state.merge (states.foldl merge empty) := by
  induction states generalizing state with
  | nil => exact state.merge_empty.symm
  | cons other states ih =>
      calc states.foldl merge (state.merge other)
          = (state.merge other).merge (states.foldl merge empty) := ih (state.merge other)
        _ = ((state.merge empty).merge other).merge (states.foldl merge empty) := by
            rw [merge_empty]
        _ = state.merge ((empty.merge other).merge (states.foldl merge empty)) := by
            rw [merge_assoc state, merge_assoc state]
        _ = state.merge (states.foldl merge (empty.merge other)) := by rw [ih (empty.merge other)]

theorem completed_of_foldl (state : SavedState) (states : List SavedState) :
    (states.foldl merge state).completed = state.completed ++ states.flatMap (·.completed) := by
  induction states generalizing state with
  | nil => exact (List.append_nil _).symm
  | cons other states ih =>
      rw [List.foldl_cons, ih, merge, List.flatMap_cons, List.append_assoc]

theorem find_of_foldl_absent {id : String} {states : List SavedState}
    (absent : ∀ other ∈ states, id ∉ other.progress.ids) (state : SavedState) :
    (states.foldl merge state).progress.find? id = state.progress.find? id := by
  induction states generalizing state with
  | nil => rfl
  | cons other states ih =>
      obtain ⟨first, others⟩ := List.forall_mem_cons.mp absent
      have nothing : other.progress.find? id = none := by
        rw [IdMap.mem_ids_iff, Bool.not_eq_true, Option.isSome_eq_false_iff,
          Option.isNone_iff_eq_none] at first
        exact first
      rw [List.foldl_cons, ih others, find_of_merge, nothing, Option.none_or]

theorem mem_ids_of_foldl (id : String) (state : SavedState) (states : List SavedState) :
    id ∈ (states.foldl merge state).progress.ids ↔
      id ∈ state.progress.ids ∨ ∃ other ∈ states, id ∈ other.progress.ids := by
  induction states generalizing state with
  | nil => simp
  | cons other states ih =>
      have added : id ∈ (state.merge other).progress.ids ↔
          id ∈ state.progress.ids ∨ id ∈ other.progress.ids := by
        simp only [IdMap.mem_ids_iff, find_of_merge, Option.isSome_or, Bool.or_eq_true]
        exact Or.comm
      rw [List.foldl_cons, ih, added, or_assoc, List.exists_mem_cons_iff]

end SavedState

/-! ## One entry -/

namespace Engine

/-- An engine of one achievement. -/
def Alone (engine : Engine) (id : String) (unlocked : Bool) : Prop :=
  ∃ achievement, engine.achievements = [achievement] ∧ achievement.id = id ∧
    achievement.unlocked = unlocked

theorem alone_of_load (framesPerSecond : UInt32) (view : RamView) (id formula : String) :
    ((create framesPerSecond view).load id formula).Alone id false := by
  have unused : (create framesPerSecond view).slot? id = none := rfl
  have loaded := achievements_of_load_new unused formula
  exact ⟨_, loaded, rfl, rfl⟩

variable {engine : Engine} {id : String}

/-- On a frame the only achievement is reported exactly if it unlocks. -/
theorem alone_of_frame (alone : engine.Alone id false) (view : RamView) :
    (engine.frame view).1.Alone id (Plan.reports id (engine.frame view).2) := by
  obtain ⟨achievement, single, same, locked⟩ := alone
  refine ⟨(achievement.step (engine.history.advance view)).1, ?_, ?_, ?_⟩
  · rw [frame_eq, single]
    rfl
  · rw [Achievement.id_of_step, same]
  · have unlocks := achievement.unlocks_iff (engine.history.advance view)
    simp only [locked, true_and] at unlocks
    rw [report_of_frame, single, List.filter_singleton]
    cases step : (achievement.step (engine.history.advance view)).2 with
    | true =>
        have named : Plan.reports id [achievement.id] = true :=
          Plan.reports_self (by rw [same]; exact List.mem_singleton_self id)
        rw [unlocks.mp step]
        exact named.symm
    | false =>
        have stays := unlocks.not.mp (by rw [step]; exact Bool.false_ne_true)
        exact (Bool.eq_false_iff.mpr stays)

theorem completed_of_alone {unlocked : Bool} (alone : engine.Alone id unlocked) :
    engine.save.completed = if unlocked then [id] else [] := by
  obtain ⟨achievement, single, rfl, rfl⟩ := alone
  rw [completed_of_save, unlockedIds, single, List.filter_singleton]
  cases achievement.unlocked <;> rfl

theorem ids_of_alone {unlocked : Bool} (alone : engine.Alone id unlocked) :
    engine.save.progress.ids = if unlocked then [] else [id] := by
  obtain ⟨achievement, single, rfl, rfl⟩ := alone
  simp only [save, List.partition_eq_filter_filter, single, List.filter_singleton,
    Function.comp_apply]
  cases achievement.unlocked <;> rfl

end Engine

namespace Plan

/-- A run that is watched for the only achievement of an engine tells whether it is unlocked. -/
theorem alone_of_watch_steps {σ : Type} (stepper : FrameStepper σ) {id : String} (steps : List Step)
    (console : Console σ) {engine : Engine} (alone : engine.Alone id false) :
    (watchSteps stepper id steps console engine).engine.Alone id
      (watchSteps stepper id steps console engine).unlocked := by
  induction steps generalizing console engine with
  | nil => exact alone
  | cons step steps ih =>
      have frame := Engine.alone_of_frame alone (.readable (step.play stepper console).ram)
      rw [watchSteps]
      simp only
      split
      · rename_i reported
        rw [reported] at frame
        exact frame
      · rename_i silent
        rw [Bool.eq_false_iff.mpr silent] at frame
        exact ih (step.play stepper console) frame

end Plan

namespace SetEntry

/-- Is there a plan for an entry that is not longer than allowed? -/
def isPlayed (platform : Platform) (settings : Settings) (entry : SetEntry) : Bool :=
  (entry.plan? platform settings).any fun plan => plan.length ≤ settings.verify.maxSteps

/-- What is said of the plan for an entry if it is not played. -/
def refusal? (platform : Platform) (settings : Settings) (entry : SetEntry) : Option PlanTooLong :=
  (entry.plan? platform settings).map fun plan =>
    ⟨entry.id, plan.length, settings.verify.maxSteps⟩

/-- The verdict on an entry that is played, and the state of the engine that it was played before. -/
def outcome (settings : Settings) (entry : SetEntry) : Verdict × SavedState :=
  entry.judge settings (Plan.build (entry.clauses settings))

theorem verify_eq (platform : Platform) (settings : Settings) (entry : SetEntry) :
    entry.verify platform settings =
      if entry.isPlayed platform settings then some (.ok (entry.outcome settings))
      else (entry.refusal? platform settings).map .error := by
  rw [verify, isPlayed, refusal?]
  cases built : entry.plan? platform settings with
  | none => rfl
  | some plan =>
      have same := Plan.eq_build_of_some _ _ built
      simp only [Option.any_some, decide_eq_true_eq, Option.map_some, outcome, ← same]
      change (if _ then _ else _) = _
      split <;> rfl

theorem plan_of_played {platform : Platform} {settings : Settings} {entry : SetEntry}
    (played : entry.isPlayed platform settings = true) :
    entry.plan? platform settings = some (Plan.build (entry.clauses settings)) := by
  rw [isPlayed] at played
  cases built : entry.plan? platform settings with
  | none =>
      rw [built] at played
      cases played
  | some plan => rw [Plan.eq_build_of_some _ _ built]

variable (settings : Settings) (entry : SetEntry)

theorem alone_of_play (plan : Plan) :
    (entry.play settings plan).engine.Alone entry.id (entry.play settings plan).unlocked :=
  Plan.alone_of_watch_steps idle plan.steps ⟨Ram.zeroed settings.verify.ramSize, ()⟩
    (Engine.alone_of_load settings.formula.framesPerSecond
      (.readable (Ram.zeroed settings.verify.ramSize)) entry.id entry.formula)

theorem id_of_outcome : (entry.outcome settings).1.id = entry.id := by
  rw [outcome, judge]

theorem title_of_outcome : (entry.outcome settings).1.title = entry.title := by
  rw [outcome, judge]

theorem steps_of_outcome : (entry.outcome settings).1.steps =
    (Plan.build (entry.clauses settings)).length := by
  rw [outcome, judge]

/-- An entry that passes adds its id to the completed ones. -/
theorem completed_of_outcome : (entry.outcome settings).2.completed =
    if (entry.outcome settings).1.unlocked then [entry.id] else [] := by
  have alone := entry.alone_of_play settings (Plan.build (entry.clauses settings))
  rw [outcome, judge]
  generalize entry.play settings (Plan.build (entry.clauses settings)) = run at *
  exact Engine.completed_of_alone alone

/-- An entry that fails adds a record under its id. -/
theorem ids_of_outcome : (entry.outcome settings).2.progress.ids =
    if (entry.outcome settings).1.unlocked then [] else [entry.id] := by
  have alone := entry.alone_of_play settings (Plan.build (entry.clauses settings))
  rw [outcome, judge]
  generalize entry.play settings (Plan.build (entry.clauses settings)) = run at *
  exact Engine.ids_of_alone alone

theorem mem_ids_of_outcome {id : String} : id ∈ (entry.outcome settings).2.progress.ids ↔
    (entry.outcome settings).1.unlocked = false ∧ entry.id = id := by
  rw [ids_of_outcome]
  cases (entry.outcome settings).1.unlocked <;> simp [eq_comm]

end SetEntry

/-! ## Whole sets -/

/-- What is refused, or does not come to an end, is not continued. -/
theorem refused_bind {ε α β : Type} (refusal : Option ε) (next : α → ExceptT ε Option β) :
    (ExceptT.mk (refusal.map .error) : ExceptT ε Option α) >>= next =
      ExceptT.mk (refusal.map .error) := by
  cases refusal <;> rfl

/-- A traversal ends at the first item that does not pass, or else with the results of all. -/
theorem map_m_of_passes {ε α β : Type} {judge : α → ExceptT ε Option β} {passes : α → Bool}
    {result : α → β} {fault? : α → Option ε}
    (judged : ∀ item, judge item =
      if passes item then pure (result item) else ExceptT.mk ((fault? item).map .error))
    (items : List α) :
    items.mapM judge =
      match items.find? (!passes ·) with
      | some item => ExceptT.mk ((fault? item).map .error)
      | none => pure (items.map result) := by
  induction items with
  | nil => rfl
  | cons item items ih =>
      rw [List.mapM_cons, List.find?_cons, judged]
      cases passes item with
      | false =>
          simp only [Bool.false_eq_true, if_false, Bool.not_false]
          exact refused_bind _ _
      | true =>
          simp only [if_true, pure_bind, ih, Bool.not_true]
          cases items.find? (!passes ·) with
          | none => rfl
          | some other => exact refused_bind _ _

namespace AchievementSet

open SetEntry

/-- The report on a set of which all entries are played. -/
def report (settings : Settings) (set : AchievementSet) : VerifyReport :=
  ⟨set.map fun entry => (entry.outcome settings).1,
    (set.map fun entry => (entry.outcome settings).2).foldl SavedState.merge .empty⟩

variable (platform : Platform)

theorem verify_set_eq (settings : Settings) (set : AchievementSet) :
    set.verify platform settings =
      match set.find? (!isPlayed platform settings ·) with
      | some entry => (entry.refusal? platform settings).map .error
      | none => some (.ok (set.report settings)) := by
  have judged : ∀ entry : SetEntry, ExceptT.mk (entry.verify platform settings) =
      if entry.isPlayed platform settings then pure (entry.outcome settings)
      else ExceptT.mk ((entry.refusal? platform settings).map .error) := by
    intro entry
    rw [SetEntry.verify_eq]
    split <;> rfl
  rw [verify, map_m_of_passes judged]
  cases set.find? (!isPlayed platform settings ·) with
  | some entry => exact congrArg ExceptT.run (refused_bind _ _)
  | none =>
      have verdicts : (set.map (outcome settings)).map Prod.fst =
          set.map fun entry => (entry.outcome settings).1 := List.map_map
      have states : (set.map (outcome settings)).map Prod.snd =
          set.map fun entry => (entry.outcome settings).2 := List.map_map
      rw [report, ← verdicts, ← states]
      rfl

theorem report_of_ok {settings : Settings} {set : AchievementSet} {report : VerifyReport}
    (verified : set.verify platform settings = some (.ok report)) :
    (∀ entry ∈ set, entry.isPlayed platform settings = true) ∧ report = set.report settings := by
  rw [verify_set_eq] at verified
  cases unplayed : set.find? (!isPlayed platform settings ·) with
  | some entry =>
      rw [unplayed] at verified
      cases refused : entry.refusal? platform settings <;> simp [refused] at verified
  | none =>
      rw [unplayed] at verified
      cases verified
      exact ⟨fun entry member => by simpa using List.find?_eq_none.mp unplayed entry member, rfl⟩

/-- What becomes of a set if one of its entries is not played. -/
theorem verify_of_unplayed {settings : Settings} {front back : List SetEntry} {entry : SetEntry}
    (played : ∀ other ∈ front, other.isPlayed platform settings = true)
    (unplayed : entry.isPlayed platform settings = false) :
    AchievementSet.verify platform settings (front ++ entry :: back) =
      (entry.refusal? platform settings).map .error := by
  have first : (front ++ entry :: back).find? (!isPlayed platform settings ·) = some entry :=
    List.find?_eq_some_iff_append.mpr ⟨by rw [unplayed]; rfl, front, back, rfl,
      fun other member => by rw [played other member]; rfl⟩
  rw [verify_set_eq, first]

theorem verify_of_played {settings : Settings} {set : AchievementSet}
    (played : ∀ entry ∈ set, entry.isPlayed platform settings = true) :
    set.verify platform settings = some (.ok (set.report settings)) := by
  have none : set.find? (!isPlayed platform settings ·) = none :=
    List.find?_eq_none.mpr fun entry member => by rw [played entry member]; exact Bool.false_ne_true
  rw [verify_set_eq, none]

/-- All entries of a set are played, or one of them is the first that is not. -/
theorem played_or_split (settings : Settings) (set : AchievementSet) :
    (∀ entry ∈ set, entry.isPlayed platform settings = true) ∨
      ∃ front entry back, set = front ++ entry :: back ∧
        (∀ other ∈ front, other.isPlayed platform settings = true) ∧
          entry.isPlayed platform settings = false := by
  cases unplayed : set.find? (!isPlayed platform settings ·) with
  | none => exact .inl fun entry member => by simpa using List.find?_eq_none.mp unplayed entry member
  | some entry =>
      obtain ⟨failing, front, back, rfl, passing⟩ := List.find?_eq_some_iff_append.mp unplayed
      exact .inr ⟨front, entry, back, rfl, fun other member => by simpa using passing other member,
        by simpa using failing⟩

theorem report_append (settings : Settings) (first second : AchievementSet) :
    AchievementSet.report settings (first ++ second) =
      ⟨(first.report settings).verdicts ++ (second.report settings).verdicts,
        (first.report settings).state.merge (second.report settings).state⟩ := by
  simp only [report, List.map_append, List.foldl_append]
  rw [SavedState.foldl_merge]

/-- A set of two parts ends like the first part that is not played to its end, and else its report is
that of the one followed by that of the other. -/
theorem verify_append (settings : Settings) (first second : AchievementSet) :
    AchievementSet.verify platform settings (first ++ second) = ExceptT.run do
      let front ← ExceptT.mk (first.verify platform settings)
      let back ← ExceptT.mk (second.verify platform settings)
      return ⟨front.verdicts ++ back.verdicts, front.state.merge back.state⟩ := by
  simp only [verify_set_eq, List.find?_append]
  cases first.find? (!isPlayed platform settings ·) with
  | some entry => exact (congrArg ExceptT.run (refused_bind _ _)).symm
  | none =>
      change _ = ExceptT.run (pure (first.report settings) >>= _)
      rw [pure_bind, Option.none_or]
      cases second.find? (!isPlayed platform settings ·) with
      | some entry => exact (congrArg ExceptT.run (refused_bind _ _)).symm
      | none =>
          simp only [report_append]
          rfl

/-- Verification does not come to an end exactly at the first entry that is not played, if it has no
plan. -/
theorem endless_iff (settings : Settings) (set : AchievementSet) :
    set.verify platform settings = none ↔ ∃ front entry back, set = front ++ entry :: back ∧
      (∀ other ∈ front, other.isPlayed platform settings = true) ∧
        Plan.Stuck platform (entry.clauses settings) := by
  constructor
  · intro endless
    rcases set.played_or_split platform settings with all | ⟨front, entry, back, rfl, played, unplayed⟩
    · rw [verify_of_played platform all] at endless
      cases endless
    · rw [verify_of_unplayed platform played unplayed, Option.map_eq_none_iff, refusal?,
        Option.map_eq_none_iff] at endless
      exact ⟨front, entry, back, rfl, played, (Plan.build_none_iff _ _).mp endless⟩
  · rintro ⟨front, entry, back, rfl, played, stuck⟩
    have none : entry.plan? platform settings = none := (Plan.build_none_iff _ _).mpr stuck
    rw [verify_of_unplayed platform played (by rw [isPlayed, none]; rfl), refusal?, none]
    rfl

/-- A set is refused exactly for the first entry that is not played, if its plan is too long. -/
theorem fails_iff (settings : Settings) (set : AchievementSet) :
    (∃ fault, set.verify platform settings = some (.error fault)) ↔
      ∃ front entry back, set = front ++ entry :: back ∧
        (∀ other ∈ front, other.isPlayed platform settings = true) ∧
          ∃ plan, entry.plan? platform settings = some plan ∧
            settings.verify.maxSteps < plan.length := by
  constructor
  · rintro ⟨fault, refused⟩
    rcases set.played_or_split platform settings with all | ⟨front, entry, back, rfl, played, unplayed⟩
    · rw [verify_of_played platform all] at refused
      cases refused
    · rw [verify_of_unplayed platform played unplayed, refusal?, Option.map_map,
        Option.map_eq_some_iff] at refused
      obtain ⟨plan, built, -⟩ := refused
      rw [isPlayed, built, Option.any_some, decide_eq_false_iff_not, not_le] at unplayed
      exact ⟨front, entry, back, rfl, played, plan, built, unplayed⟩
  · rintro ⟨front, entry, back, rfl, played, plan, built, long⟩
    have unplayed : entry.isPlayed platform settings = false := by
      rw [isPlayed, built, Option.any_some, decide_eq_false_iff_not, not_le]
      exact long
    rw [verify_of_unplayed platform played unplayed, refusal?, built]
    exact ⟨_, rfl⟩

/-- Where all entries have plans, only the length of the plans matters. -/
theorem fails_of_plans (settings : Settings) (set : AchievementSet)
    (free : ∀ entry ∈ set, ¬Plan.Stuck platform (entry.clauses settings)) :
    (∃ fault, set.verify platform settings = some (.error fault)) ↔
      ∃ entry ∈ set, ∃ plan, entry.plan? platform settings = some plan ∧
        settings.verify.maxSteps < plan.length := by
  rw [fails_iff]
  constructor
  · rintro ⟨front, entry, back, rfl, -, long⟩
    exact ⟨entry, List.mem_append_right _ List.mem_cons_self, long⟩
  · rintro ⟨entry, member, plan, built, long⟩
    rcases set.played_or_split platform settings with all | ⟨front, other, back, rfl, played, unplayed⟩
    · have short := all entry member
      rw [isPlayed, built, Option.any_some, decide_eq_true_eq] at short
      exact absurd long short.not_gt
    · have other_free := (Plan.build_none_iff _ _).not.mpr
        (free other (List.mem_append_right _ List.mem_cons_self))
      obtain ⟨first, known⟩ := Option.ne_none_iff_exists'.mp other_free
      refine ⟨front, other, back, rfl, played, first, known, ?_⟩
      change other.plan? platform settings = some first at known
      rwa [isPlayed, known, Option.any_some, decide_eq_false_iff_not, not_le] at unplayed

variable (settings : Settings) (set : AchievementSet)

theorem completed_of_report : (set.report settings).state.completed =
    ((set.report settings).verdicts.filter (·.unlocked)).map (·.id) := by
  rw [report, SavedState.completed_of_foldl]
  induction set with
  | nil => rfl
  | cons entry set ih =>
      have own := entry.completed_of_outcome settings
      simp only [List.map_cons, List.flatMap_cons, List.filter_cons] at ih ⊢
      rw [own]
      cases (entry.outcome settings).1.unlocked with
      | true => exact congrArg (entry.id :: ·) ih
      | false => exact ih

theorem mem_ids_of_report (id : String) : id ∈ (set.report settings).state.progress.ids ↔
    ∃ verdict ∈ (set.report settings).verdicts, verdict.unlocked = false ∧ verdict.id = id := by
  rw [report, SavedState.mem_ids_of_foldl]
  simp only [List.mem_map, exists_exists_and_eq_and, mem_ids_of_outcome]
  exact or_iff_right List.not_mem_nil

variable {settings set}

/-- What is recorded of an entry is what its own engine has saved. -/
theorem find_of_report (distinct : (set.map (·.id)).Nodup) {entry : SetEntry} (member : entry ∈ set) :
    (set.report settings).state.progress.find? entry.id =
      (entry.outcome settings).2.progress.find? entry.id := by
  obtain ⟨front, back, rfl⟩ := List.mem_iff_append.mp member
  have elsewhere : ∀ part : List SetEntry, (∀ other ∈ part, other.id ≠ entry.id) →
      ∀ state ∈ part.map (fun other => (other.outcome settings).2),
        entry.id ∉ state.progress.ids := by
    intro part others state added present
    obtain ⟨other, inPart, rfl⟩ := List.mem_map.mp added
    exact others other inPart ((other.mem_ids_of_outcome settings).mp present).2
  rw [List.map_append, List.map_cons, List.nodup_middle, List.nodup_cons, List.mem_append,
    not_or] at distinct
  have noneInFront := elsewhere front fun other inFront same =>
    distinct.1.1 (same ▸ List.mem_map_of_mem inFront)
  have noneInBack := elsewhere back fun other inBack same =>
    distinct.1.2 (same ▸ List.mem_map_of_mem inBack)
  simp only [report, List.map_append, List.map_cons, List.foldl_append, List.foldl_cons]
  rw [SavedState.find_of_foldl_absent noneInBack, SavedState.find_of_merge,
    SavedState.find_of_foldl_absent noneInFront]
  exact Option.or_none

theorem report_of_single (settings : Settings) (entry : SetEntry) :
    (AchievementSet.report settings [entry]).verdicts = [(entry.outcome settings).1] ∧
      ∀ id, (AchievementSet.report settings [entry]).state.progress.find? id =
        (entry.outcome settings).2.progress.find? id :=
  ⟨rfl, fun id => (SavedState.find_of_merge .empty _ id).trans Option.or_none⟩

/-- What is said of an entry by its verdict and by the state of the set that it is in. -/
structure Tells (settings : Settings) (state : SavedState) (entry : SetEntry) (verdict : Verdict) :
    Prop where
  id : verdict.id = entry.id
  title : verdict.title = entry.title
  steps : ∃ plan, entry.plan? platform settings = some plan ∧ verdict.steps = plan.length
  completed : verdict.unlocked = true ↔ entry.id ∈ state.completed
  single : ∃ alone, AchievementSet.verify platform settings [entry] = some (.ok alone) ∧
    alone.verdicts = [verdict] ∧
      state.progress.find? entry.id = alone.state.progress.find? entry.id

theorem tells_of_report (distinct : (set.map (·.id)).Nodup) {entry : SetEntry} (member : entry ∈ set)
    (played : entry.isPlayed platform settings = true) :
    Tells platform settings (set.report settings).state entry (entry.outcome settings).1 where
  id := entry.id_of_outcome settings
  title := entry.title_of_outcome settings
  steps := ⟨_, plan_of_played played, entry.steps_of_outcome settings⟩
  completed := by
    rw [completed_of_report]
    constructor
    · intro passes
      exact List.mem_map.mpr ⟨(entry.outcome settings).1,
        List.mem_filter.mpr ⟨List.mem_map_of_mem member, passes⟩, entry.id_of_outcome settings⟩
    · intro listed
      obtain ⟨verdict, passing, same⟩ := List.mem_map.mp listed
      obtain ⟨given, passes⟩ := List.mem_filter.mp passing
      obtain ⟨other, inSet, rfl⟩ := List.mem_map.mp given
      rwa [← List.inj_on_of_nodup_map distinct inSet member same]
  single := by
    obtain ⟨verdicts, found⟩ := report_of_single settings entry
    refine ⟨AchievementSet.report settings [entry], ?_, verdicts, ?_⟩
    · exact verify_of_played platform (List.forall_mem_singleton.mpr played)
    · rw [found, find_of_report distinct member]

/-- A set with distinct ids is verified for ever exactly if an entry without a plan is reached, and
refused exactly if one with a plan that is too long is. If all entries have plans, this is so exactly
if one of the plans is too long. The verdicts say what the state says, and both say of each entry what
they would say if the entry stood alone. -/
theorem verdicts_agree_with_state (platform : Platform) (settings : Settings) (set : AchievementSet)
    (distinct : (set.map (·.id)).Nodup) :
    (set.verify platform settings = none ↔ ∃ front entry back, set = front ++ entry :: back ∧
      (∀ other ∈ front, other.isPlayed platform settings = true) ∧
        Plan.Stuck platform (entry.clauses settings)) ∧
    ((∃ fault, set.verify platform settings = some (.error fault)) ↔
      ∃ front entry back, set = front ++ entry :: back ∧
        (∀ other ∈ front, other.isPlayed platform settings = true) ∧
          ∃ plan, entry.plan? platform settings = some plan ∧
            settings.verify.maxSteps < plan.length) ∧
    ((∀ entry ∈ set, ¬Plan.Stuck platform (entry.clauses settings)) →
      ((∃ fault, set.verify platform settings = some (.error fault)) ↔
        ∃ entry ∈ set, ∃ plan, entry.plan? platform settings = some plan ∧
          settings.verify.maxSteps < plan.length)) ∧
    (∀ report, set.verify platform settings = some (.ok report) →
      List.Forall₂ (Tells platform settings report.state) set report.verdicts ∧
      report.state.completed = (report.verdicts.filter (·.unlocked)).map (·.id) ∧
      ∀ id, id ∈ report.state.progress.ids ↔
        ∃ verdict ∈ report.verdicts, verdict.unlocked = false ∧ verdict.id = id) ∧
    ∀ first second, set = first ++ second → set.verify platform settings = ExceptT.run do
      let front ← ExceptT.mk (first.verify platform settings)
      let back ← ExceptT.mk (second.verify platform settings)
      return ⟨front.verdicts ++ back.verdicts, front.state.merge back.state⟩ := by
  refine ⟨set.endless_iff platform settings, set.fails_iff platform settings,
    set.fails_of_plans platform settings, ?_, ?_⟩
  · intro report verified
    obtain ⟨played, rfl⟩ := report_of_ok platform verified
    refine ⟨?_, set.completed_of_report settings, set.mem_ids_of_report settings⟩
    rw [AchievementSet.report, List.forall₂_map_right_iff, List.forall₂_same]
    exact fun entry member => tells_of_report platform distinct member (played entry member)
  · rintro first second rfl
    exact verify_append platform settings first second

/-- Memory of eight bytes, and plans of at most three steps. -/
def smallSettings : Settings where
  verify := { ramSize := 8, maxSteps := 3 }

/-- Entries whose ids differ only by case; the second one asks for what no plan gives. -/
def coins : AchievementSet :=
  [⟨"coins", "Coins", "0xH0001=1_0xH0002=7"⟩, ⟨"Coins", "", "1=2"⟩,
    ⟨"streak", "Streak", "0xH0003>d0xH0003.2."⟩]

theorem coins_are_judged :
    ∃ report, coins.verify .exact smallSettings = some (.ok report) ∧
      report.verdicts.map (·.unlocked) = [true, false, true] ∧
      List.Forall₂ (Tells .exact smallSettings report.state) coins report.verdicts ∧
      report.state.completed = ["coins", "streak"] ∧
      ∀ id, id ∈ report.state.progress.ids ↔ "Coins" = id := by
  have played : ∀ entry ∈ coins, entry.isPlayed .exact smallSettings = true := by decide +kernel
  have verified := verify_of_played .exact played
  have verdicts : (coins.report smallSettings).verdicts =
      [⟨"coins", "Coins", 1, true⟩, ⟨"Coins", "", 1, false⟩, ⟨"streak", "Streak", 3, true⟩] := by
    decide +kernel
  obtain ⟨-, -, -, agrees, -⟩ := verdicts_agree_with_state .exact smallSettings coins (by decide)
  obtain ⟨told, completed, failing⟩ := agrees _ verified
  refine ⟨coins.report smallSettings, verified, ?_, told, ?_, fun id => ?_⟩
  · rw [verdicts]
    rfl
  · rw [completed, verdicts]
    rfl
  · rw [failing, verdicts]
    simp

/-- A real that is too large for the search for its exponent to end. -/
def giant : SetEntry where
  id := "formula"
  title := ""
  formula := String.ofList ("fM0010=1".toList ++ List.replicate 308 '0' ++ ".0".toList)

theorem clauses_of_giant : giant.clauses {} =
    (Formula.tokens ("fM0010=1".toList ++ List.replicate 308 '0' ++ ".0".toList)).flatMap
      (Formula.readClauses 60) := by
  rw [SetEntry.clauses, Formula.read, giant, String.toList_ofList]

theorem giant_has_no_plan : (Plan.build (giant.clauses {})).length = 1 ∧
    (giant.plan? .exact {}).isNone = true := by
  rw [SetEntry.plan?, clauses_of_giant]
  decide +kernel

/-- The only plan of the set would have one step, but it is never built. -/
theorem giant_is_never_judged : ([giant].map (·.id)).Nodup ∧
    (∀ entry ∈ [giant], (Plan.build (entry.clauses {})).length = 1) ∧
      AchievementSet.verify .exact {} [giant] = none := by
  have unplanned : giant.plan? .exact {} = none :=
    Option.isNone_iff_eq_none.mp giant_has_no_plan.2
  have stuck : Plan.Stuck .exact (giant.clauses {}) := (Plan.build_none_iff _ _).mp unplanned
  exact ⟨List.nodup_singleton _, List.forall_mem_singleton.mpr giant_has_no_plan.1,
    (endless_iff .exact {} [giant]).mpr ⟨[], giant, [], rfl, nofun, stuck⟩⟩

end AchievementSet

end Achievements
