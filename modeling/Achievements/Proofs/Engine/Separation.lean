import Achievements.Proofs.Engine.Resuming
import Achievements.Proofs.Plan.Watching

/-!
# Achievements do not influence each other

All achievements of an engine share the memory that it has seen, and nothing else. A frame steps
each of them by itself, so after any number of frames it is where it would be in an engine that has
loaded it alone, and it is reported on the same frame. `Engine.entries_are_played_apart` compares
the two for every order of loading.
-/

set_option autoImplicit false

namespace Achievements

namespace Achievement

/-- The achievement of an entry before the first frame. -/
def ofEntry (framesPerSecond : UInt32) (entry : String × String) : Achievement :=
  .fresh entry.1 entry.2 (Formula.read framesPerSecond entry.2)

/-- The achievement after frames on which an engine of the given history has seen some memory. -/
def through (history : History) : List RamView → Achievement → Achievement
  | [], achievement => achievement
  | view :: views, achievement =>
      through (history.advance view) views (achievement.step (history.advance view)).1

theorem id_of_through (history : History) (views : List RamView) (achievement : Achievement) :
    (achievement.through history views).id = achievement.id := by
  induction views generalizing history achievement with
  | nil => rfl
  | cons view views ih => exact (ih _ _).trans (id_of_step _ _)

end Achievement

namespace Engine

theorem frame_eq (engine : Engine) (view : RamView) :
    (engine.frame view).1 =
      { engine with
        achievements := engine.achievements.map fun achievement =>
          (achievement.step (engine.history.advance view)).1
        history := engine.history.advance view } := by
  simp only [frame, List.map_map, Function.comp_def]

/-- Frames step every achievement by itself. -/
theorem play_eq (engine : Engine) (views : List RamView) :
    engine.play views =
      { engine with
        achievements := engine.achievements.map (Achievement.through engine.history views)
        history := views.foldl History.advance engine.history } := by
  induction views generalizing engine with
  | nil =>
      have unchanged : engine.achievements.map (Achievement.through engine.history []) =
          engine.achievements := List.map_id _
      rw [unchanged]
      rfl
  | cons view views ih =>
      have later : engine.play (view :: views) = (engine.frame view).1.play views := rfl
      rw [later, ih, frame_eq, List.map_map]
      rfl

/-- What is reported on a frame, in the order of loading. -/
theorem report_of_frame (engine : Engine) (view : RamView) :
    (engine.frame view).2 =
      (engine.achievements.filter fun achievement =>
        (achievement.step (engine.history.advance view)).2).map (·.id) := by
  rw [← List.filterMap_eq_map, List.filterMap_filter]
  simp only [frame, List.filterMap_map]
  apply List.filterMap_congr
  intro achievement _
  simp only [Function.comp_apply, Achievement.id_of_step]

theorem slot_of_absent {engine : Engine} (loaded : engine.Loaded) {id : String}
    (absent : id ∉ engine.ids) : engine.slot? id = none := by
  cases found : engine.slot? id with
  | none => rfl
  | some slot =>
      have place := (loaded.indexed id slot).mp found
      exact absurd (List.mem_of_getElem? place) absent

theorem achievements_of_load_new {engine : Engine} {id : String}
    (found : engine.slot? id = none) (formula : String) :
    (engine.load id formula).achievements =
      engine.achievements ++ [.ofEntry engine.framesPerSecond (id, formula)] := by
  simp only [load, found]
  rfl

/-- Entries of new and distinct ids are loaded in their order. -/
theorem achievements_of_load_all {engine : Engine} (loaded : engine.Loaded)
    (entries : List (String × String)) (distinct : (entries.map Prod.fst).Nodup)
    (absent : ∀ entry ∈ entries, entry.1 ∉ engine.ids) :
    (engine.loadAll entries).achievements =
      engine.achievements ++ entries.map (.ofEntry engine.framesPerSecond) := by
  induction entries generalizing engine with
  | nil => exact (List.append_nil _).symm
  | cons entry entries ih =>
      obtain ⟨id, formula⟩ := entry
      rw [List.map_cons, List.nodup_cons] at distinct
      rw [List.forall_mem_cons] at absent
      have found := slot_of_absent loaded absent.1
      have laterAbsent : ∀ other ∈ entries, other.1 ∉ (engine.load id formula).ids := by
        intro other member inIds
        rw [(names_of_load_new found formula).1, List.mem_append, List.mem_singleton] at inIds
        rcases inIds with before | same
        · exact absent.2 other member before
        · exact distinct.1 (same ▸ List.mem_map_of_mem member)
      have rest := ih (loaded_load loaded id formula) distinct.2 laterAbsent
      rw [rate_of_load, achievements_of_load_new found] at rest
      exact rest.trans (List.append_assoc _ _ _)

section Entries

variable (framesPerSecond : UInt32) (start : RamView) (views : List RamView)

/-- An engine that has loaded some entries and then seen some frames. -/
def played (order : List (String × String)) : Engine :=
  ((create framesPerSecond start).loadAll order).play views

/-- The achievement of an entry after those frames, if nobody else is there. -/
def lone (entry : String × String) : Achievement :=
  (Achievement.ofEntry framesPerSecond entry).through (.capture start) views

variable {order : List (String × String)}

theorem played_eq (distinct : (order.map Prod.fst).Nodup) :
    (played framesPerSecond start views order).achievements =
        order.map (lone framesPerSecond start views) ∧
      (played framesPerSecond start views order).history =
        views.foldl History.advance (.capture start) := by
  have empty : (create framesPerSecond start).Loaded :=
    (sound_create framesPerSecond start).toLoaded
  have loaded : ((create framesPerSecond start).loadAll order).achievements =
      order.map (.ofEntry framesPerSecond) :=
    achievements_of_load_all empty order distinct fun _ _ => List.not_mem_nil
  have history : ((create framesPerSecond start).loadAll order).history = .capture start :=
    congrArg Engine.history
      (load_all_elsewhere (create framesPerSecond start) (.capture start) order)
  rw [played, play_eq, history, loaded, List.map_map]
  exact ⟨rfl, rfl⟩

theorem report_of_played (distinct : (order.map Prod.fst).Nodup) (view : RamView) :
    ((played framesPerSecond start views order).frame view).2 =
      (order.filter fun entry =>
        ((lone framesPerSecond start views entry).step
          ((views.foldl History.advance (.capture start)).advance view)).2).map Prod.fst := by
  have both := played_eq framesPerSecond start views distinct
  rw [report_of_frame, both.1, both.2, List.filter_map, List.map_map]
  apply List.map_congr_left
  intro entry _
  exact Achievement.id_of_through _ _ _

/-- Whatever else is loaded, in whatever order, each achievement is after any number of frames what
it is in an engine of its own. On every frame those are reported, in the order of loading, that such
an engine reports. -/
theorem entries_are_played_apart {entries : List (String × String)}
    (distinct : (entries.map Prod.fst).Nodup) (permuted : order.Perm entries) :
    (played framesPerSecond start views order).achievements =
        order.flatMap (fun entry => (played framesPerSecond start views [entry]).achievements) ∧
      (∀ entry ∈ entries, ∃ achievement,
        (played framesPerSecond start views order).find? entry.1 = some achievement ∧
          (played framesPerSecond start views [entry]).find? entry.1 = some achievement) ∧
      ∀ view, ((played framesPerSecond start views order).frame view).2 =
        (order.filter fun entry =>
          entry.1 ∈ ((played framesPerSecond start views [entry]).frame view).2).map Prod.fst := by
  have ordered : (order.map Prod.fst).Nodup := (permuted.map Prod.fst).nodup_iff.mpr distinct
  have single : ∀ entry : String × String, ([entry].map Prod.fst).Nodup :=
    fun entry => List.nodup_singleton entry.1
  have together := (played_eq framesPerSecond start views ordered).1
  have apart := fun entry => (played_eq framesPerSecond start views (single entry)).1
  have loaded : ∀ order, (played framesPerSecond start views order).Loaded := fun order =>
    (Becomes.play _ views).loaded (sound_load_all framesPerSecond start order).toLoaded
  have found : ∀ {order : List (String × String)} {entry : String × String},
      (order.map Prod.fst).Nodup → entry ∈ order →
        (played framesPerSecond start views order).find? entry.1 =
          some (lone framesPerSecond start views entry) := by
    intro order entry nodup member
    have place : lone framesPerSecond start views entry ∈
        (played framesPerSecond start views order).achievements := by
      rw [(played_eq framesPerSecond start views nodup).1]
      exact List.mem_map_of_mem member
    have named : (lone framesPerSecond start views entry).id = entry.1 :=
      Achievement.id_of_through _ _ _
    rw [← named]
    exact find_of_mem (loaded order) place
  refine ⟨?_, ?_, ?_⟩
  · rw [together, ← List.flatMap_pure_eq_map]
    simp only [apart]
    rfl
  · intro entry member
    exact ⟨_, found ordered (permuted.mem_iff.mpr member),
      found (single entry) (List.mem_singleton_self entry)⟩
  · intro view
    rw [report_of_played framesPerSecond start views ordered]
    apply congrArg (List.map Prod.fst)
    apply List.filter_congr
    intro entry _
    rw [report_of_played framesPerSecond start views (single entry), List.filter_singleton]
    cases ((lone framesPerSecond start views entry).step _).2 with
    | false => rfl
    | true => exact (decide_eq_true (List.mem_singleton_self entry.1)).symm

end Entries

/-- One is done at once, one is thrown back by a reset, and one compares a byte with how much it has
grown. -/
def neighbours : List (String × String) :=
  [("door", "0xH0=1"), ("boss", "R:0xH1=0_0xH0=1(2)"), ("coins", "0xH1>d0xH1")]

theorem neighbours_are_played_apart :
    let views : List RamView := [.readable ⟨#[1, 0]⟩, .unreadable 2 (.unavailable "gone"),
      .readable ⟨#[1, 1]⟩]
    let engine := played 60 (.readable ⟨#[0, 0]⟩) views neighbours.reverse
    let alone := fun entry => played 60 (.readable ⟨#[0, 0]⟩) views [entry]
    let view : RamView := .readable ⟨#[1, 2]⟩
    (neighbours.map Prod.fst).Nodup ∧ neighbours.reverse.Perm neighbours ∧
      engine.achievements = neighbours.reverse.flatMap (fun entry => (alone entry).achievements) ∧
      (engine.frame view).2 = ["coins", "boss"] ∧
      (engine.frame view).2 = (neighbours.reverse.filter fun entry =>
        entry.1 ∈ ((alone entry).frame view).2).map Prod.fst := by
  intro views engine alone view
  have distinct : (neighbours.map Prod.fst).Nodup := by decide
  have permuted : neighbours.reverse.Perm neighbours := List.reverse_perm neighbours
  have both := entries_are_played_apart 60 (.readable ⟨#[0, 0]⟩) views distinct permuted
  exact ⟨distinct, permuted, both.1, by decide +kernel, both.2.2 view⟩

end Engine

end Achievements
