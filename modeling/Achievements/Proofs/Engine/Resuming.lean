import Achievements.Proofs.Engine.Restoring
import Achievements.Proofs.Progress.Present

/-!
# Playing on from a saved state

An engine that was restored differs from the one that saved the state: it has seen other memory, and
its unlocked achievements have lost their counters. As long as no formula refers to earlier frames
neither can ever be seen: `Engine.resume_is_invisible` compares all that both engines report and save
from then on.
-/

set_option autoImplicit false

namespace Achievements

namespace Achievement

variable {first second : Achievement} {history later : History}

theorem live_of_turn {restoring : Bool} (turn : Turn restoring first second)
    (live : first.IsLive) : second.IsLive := by
  rw [IsLive, clauses_of_turn turn]
  exact live

theorem stands_for_of_step (present : history.now = later.now) (live : first.IsLive)
    (stands : second.StandsFor first) :
    (second.step later).2 = (first.step history).2 ∧
      (second.step later).1.StandsFor (first.step history).1 := by
  cases state : first.unlocked with
  | true =>
      -- It is not stepped any more, so nobody reads the counters that it has lost.
      have stateToo : second.unlocked = true := stands.unlocked.trans state
      simp only [step, state, stateToo, if_true]
      exact ⟨trivial, stands⟩
  | false =>
      rw [stands.locked state, step_of_present present live]
      exact ⟨rfl, rfl, rfl, fun _ => rfl⟩

variable {firsts seconds : List Achievement}

theorem unlocked_of_stands_for (stands : List.Forall₂ StandsFor seconds firsts) :
    (seconds.filter (·.unlocked)).map (·.id) = (firsts.filter (·.unlocked)).map (·.id) := by
  induction stands with
  | nil => rfl
  | cons head _ ih =>
      rw [List.filter_cons, List.filter_cons, head.unlocked]
      split
      · rw [List.map_cons, List.map_cons, ih, head.id]
      · exact ih

theorem locked_of_stands_for (stands : List.Forall₂ StandsFor seconds firsts) :
    seconds.filter (not ∘ (·.unlocked)) = firsts.filter (not ∘ (·.unlocked)) := by
  induction stands with
  | nil => rfl
  | cons head _ ih =>
      rw [List.filter_cons, List.filter_cons, Function.comp_apply, Function.comp_apply,
        head.unlocked, ih]
      split
      · rename_i locked
        rw [head.locked (Bool.not_eq_true' _ ▸ locked)]
      · rfl

theorem stands_for_of_steps (present : history.now = later.now)
    (live : ∀ achievement ∈ firsts, achievement.IsLive)
    (stands : List.Forall₂ StandsFor seconds firsts) :
    List.Forall₂ (fun second first => second.2 = first.2 ∧ StandsFor second.1 first.1)
      (seconds.map (step later)) (firsts.map (step history)) := by
  rw [List.forall₂_map_left_iff, List.forall₂_map_right_iff]
  induction stands with
  | nil => exact .nil
  | cons head _ ih =>
      rw [List.forall_mem_cons] at live
      exact .cons (stands_for_of_step present live.1 head) (ih live.2)

theorem reports_of_stands_for {firsts seconds : List (Achievement × Bool)}
    (stands : List.Forall₂ (fun second first => second.2 = first.2 ∧ StandsFor second.1 first.1)
      seconds firsts) :
    seconds.filterMap (fun (achievement, unlocks) =>
        if unlocks then some achievement.id else none) =
      firsts.filterMap fun (achievement, unlocks) =>
        if unlocks then some achievement.id else none := by
  induction stands with
  | nil => rfl
  | cons head _ ih => simp only [List.filterMap_cons, head.1, head.2.id, ih]

end Achievement

namespace Engine

/-- All achievements of the second engine stand for those of the first one, in order. -/
def StandsFor (second first : Engine) : Prop :=
  List.Forall₂ Achievement.StandsFor second.achievements first.achievements

def IsLive (engine : Engine) : Prop :=
  ∀ achievement ∈ engine.achievements, achievement.IsLive

/-- What an engine reports on each frame, and what it could save after it. -/
def trace (engine : Engine) : List Ram → List (List String × SavedState)
  | [] => []
  | ram :: rams =>
      let (after, unlocked) := engine.frame (.readable ram)
      (unlocked, after.save) :: after.trace rams

variable {first second : Engine}

theorem Becomes.live {restoring : Bool} (becomes : first.Becomes restoring second)
    (live : first.IsLive) : second.IsLive :=
  forall_of_related becomes.turns (fun _ _ turns =>
    Achievement.keeps_of_turns Achievement.IsLive turns fun _ _ => Achievement.live_of_turn) live

/-- Nothing that is saved tells the two apart. -/
theorem save_of_stands_for (stands : second.StandsFor first) : second.save = first.save := by
  simp only [save, List.partition_eq_filter_filter, Achievement.unlocked_of_stands_for stands,
    Achievement.locked_of_stands_for stands]

theorem frame_of_stands_for (stands : second.StandsFor first) (live : first.IsLive) (ram : Ram) :
    (second.frame (.readable ram)).2 = (first.frame (.readable ram)).2 ∧
      (second.frame (.readable ram)).1.StandsFor (first.frame (.readable ram)).1 := by
  have present : (first.history.advance (.readable ram)).now =
      (second.history.advance (.readable ram)).now := rfl
  have stepped := Achievement.stands_for_of_steps present live stands
  constructor
  · exact Achievement.reports_of_stands_for stepped
  · rw [StandsFor, frame, frame, List.forall₂_map_left_iff, List.forall₂_map_right_iff]
    exact stepped.imp fun _ _ both => both.2

theorem trace_of_stands_for (stands : second.StandsFor first) (live : first.IsLive)
    (rams : List Ram) : second.trace rams = first.trace rams := by
  induction rams generalizing first second with
  | nil => rfl
  | cons ram rams ih =>
      obtain ⟨sameReport, standsAfter⟩ := frame_of_stands_for stands live ram
      have becomes : first.Becomes false (first.frame (.readable ram)).1 := .frame first _
      simp only [trace]
      rw [sameReport, save_of_stands_for standsAfter, ih standsAfter (becomes.live live)]

/-- Frames pass, and what is reported on them is not looked at. -/
def play (engine : Engine) (views : List RamView) : Engine :=
  views.foldl (fun engine view => (engine.frame view).1) engine

theorem Becomes.play (engine : Engine) (views : List RamView) :
    engine.Becomes false (engine.play views) :=
  .foldl views (fun before view => .frame before view) engine

/-- Memory plays no part in loading. -/
theorem load_all_elsewhere (engine : Engine) (history : History)
    (entries : List (String × String)) :
    ({ engine with history } : Engine).loadAll entries =
      { engine.loadAll entries with history } := by
  induction entries generalizing engine with
  | nil => rfl
  | cons entry entries ih =>
      obtain ⟨id, formula⟩ := entry
      have loaded : ({ engine with history } : Engine).load id formula =
          { engine.load id formula with history } := by
        unfold load
        simp only [slot?]
        split <;> rfl
      simp only [loadAll, List.foldl_cons] at ih ⊢
      rw [loaded, ih]

theorem load_all_eq_run (engine : Engine) (entries : List (String × String)) :
    engine.loadAll entries = engine.run (entries.map fun entry => .load entry.1 entry.2) := by
  rw [run, List.foldl_map]
  rfl

theorem sound_load_all (framesPerSecond : UInt32) (view : RamView)
    (entries : List (String × String)) :
    ((create framesPerSecond view).loadAll entries).Sound := by
  rw [load_all_eq_run]
  exact sound_run (sound_create framesPerSecond view) _

theorem live_of_load_all {framesPerSecond : UInt32} (view : RamView)
    {entries : List (String × String)}
    (live : ∀ entry ∈ entries, ∀ clause ∈ Formula.read framesPerSecond entry.2,
      clause.isLive = true) :
    ((create framesPerSecond view).loadAll entries).IsLive := by
  rw [load_all_eq_run]
  refine (keeps_of_run (fun engine => engine.framesPerSecond = framesPerSecond ∧ engine.IsLive) _
    ?_ ⟨rfl, ?_⟩).2
  · intro operation member before ⟨rate, liveBefore⟩
    obtain ⟨entry, inEntries, rfl⟩ := List.mem_map.mp member
    refine ⟨(before.rate_of_load _ _).trans rate, ?_⟩
    intro achievement loaded
    rcases mem_load loaded with rfl | earlier
    · rw [rate, Achievement.IsLive, Achievement.clauses_of_fresh]
      exact live entry inEntries
    · exact liveBefore achievement earlier
  · intro achievement member
    cases member

/-- An engine with the achievements of an earlier time, restored to what a later one has saved,
stands for the later one. -/
theorem stands_for_of_restore {restoring : Bool} {earlier engine other : Engine}
    (becomes : earlier.Becomes restoring engine) (sound : engine.Sound) (loaded : other.Loaded)
    (same : other.achievements = earlier.achievements) (view : RamView) :
    (other.restore engine.save view).StandsFor engine := by
  have known : ∀ id ∈ engine.ids, id ∈ other.ids := by
    rw [becomes.ids, ids, ids, same]
    exact fun _ => id
  have restored := Achievement.map_of_turns (Achievement.restored engine.save)
    (fun _ _ => Achievement.restored_of_turn engine.save) becomes.turns
  rw [StandsFor, achievements_of_restore loaded (knows_save known), same, ← restored,
    List.forall₂_map_left_iff]
  exact List.forall₂_same.mpr fun achievement member => stands_for_of_restored sound member

/-- Saving and restoring between two frames goes unnoticed if no formula refers to earlier frames:
from then on the same ids are reported and the same states are saved. -/
theorem resume_is_invisible (framesPerSecond : UInt32) (start elsewhere view : RamView)
    (entries : List (String × String))
    (live : ∀ entry ∈ entries, ∀ clause ∈ Formula.read framesPerSecond entry.2,
      clause.isLive = true)
    (before : List RamView) (after : List Ram) :
    let engine := ((create framesPerSecond start).loadAll entries).play before
    let fresh := (create framesPerSecond elsewhere).loadAll entries
    (fresh.restore engine.save view).trace after = engine.trace after := by
  intro engine fresh
  have becomes := Becomes.play ((create framesPerSecond start).loadAll entries) before
  have sound : engine.Sound := becomes.sound (sound_load_all framesPerSecond start entries)
  have loaded : fresh.Loaded := (sound_load_all framesPerSecond elsewhere entries).toLoaded
  have moved := load_all_elsewhere (create framesPerSecond start) (.capture elsewhere) entries
  have same := congrArg Engine.achievements moved
  exact trace_of_stands_for (stands_for_of_restore becomes sound loaded same view)
    (becomes.live (live_of_load_all start live)) after

/-- Hits, a remembered value that is measured, and a trigger, all about the present. -/
def presentEntries : List (String × String) :=
  [("count", "0xH0=1(3)_T:0xH1=1"), ("measure", "K:0xH2_M:0xH1>=7_N:0xH0=1_0xH2=5(2)")]

theorem present_entries_resume :
    let engine := ((create 60 (.readable ⟨#[0, 0, 0]⟩)).loadAll presentEntries).play
      [.readable ⟨#[1, 0, 5]⟩, .readable ⟨#[1, 0, 5]⟩]
    let fresh := (create 60 (.readable ⟨#[]⟩)).loadAll presentEntries
    let after : List Ram := [⟨#[1, 0, 6]⟩, ⟨#[0, 1, 0]⟩]
    (∀ entry ∈ presentEntries, ∀ clause ∈ Formula.read 60 entry.2, clause.isLive = true) ∧
      (engine.trace after).map Prod.fst = [[], ["count"]] ∧
      (fresh.restore engine.save (.readable ⟨#[0, 0, 0]⟩)).trace after = engine.trace after := by
  intro engine fresh after
  have live : ∀ entry ∈ presentEntries, ∀ clause ∈ Formula.read 60 entry.2,
      clause.isLive = true := by decide +kernel
  exact ⟨live, by decide +kernel, resume_is_invisible 60 _ _ _ presentEntries live _ after⟩

end Engine

end Achievements
