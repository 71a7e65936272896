import Achievements.Proofs.Engine.Separation

/-!
# Reports of unlocks

While no state is restored and the engine is not returned to power-on, an unlock is reported once,
on the frame on which it happens, and from then on the achievement stays exactly as it is.
`Engine.unlocks_are_reported_once` says so of everything that can follow any history of an engine.
-/

set_option autoImplicit false

namespace Achievements

namespace Achievement

/-- An unlock is reported exactly when the achievement was locked and is not any more. -/
theorem unlocks_iff (achievement : Achievement) (history : History) :
    (achievement.step history).2 = true ↔
      achievement.unlocked = false ∧ (achievement.step history).1.unlocked = true := by
  cases state : achievement.unlocked with
  | true => simp [step_of_unlocked state]
  | false => simp [unlocked_after_step, state]

end Achievement

namespace Engine

/-- What happens to an engine in use. Saving only reads it. -/
inductive Occasion where
  | frame (view : RamView)
  | save
  | load (id formula : String)

def Occasion.loads : Occasion → List String
  | .load id _ => [id]
  | _ => []

/-- The engine after an occasion, with the ids that are returned. -/
def attend (engine : Engine) : Occasion → Engine × List String
  | .frame view => engine.frame view
  | .save => (engine, [])
  | .load id formula => (engine.load id formula, [])

def attendAll (engine : Engine) (occasions : List Occasion) : Engine :=
  occasions.foldl (fun engine occasion => (engine.attend occasion).1) engine

def reports (engine : Engine) : List Occasion → List (List String)
  | [] => []
  | occasion :: occasions =>
      let (after, report) := engine.attend occasion
      report :: after.reports occasions

/-- Only ids are loaded that are not there yet. -/
def LoadsAnew (engine : Engine) : List Occasion → Prop
  | [] => True
  | occasion :: occasions =>
      (∀ id ∈ occasion.loads, id ∉ engine.ids) ∧
        (engine.attend occasion).1.LoadsAnew occasions

instance decidableLoadsAnew (engine : Engine) :
    (occasions : List Occasion) → Decidable (engine.LoadsAnew occasions)
  | [] => .isTrue trivial
  | occasion :: occasions =>
      have := decidableLoadsAnew (engine.attend occasion).1 occasions
      inferInstanceAs (Decidable (_ ∧ _))

/-- An occasion changes no unlocked achievement and reports those that unlock on it. -/
structure Attends (engine later : Engine) (report : List String) : Prop where
  kept : ∀ achievement ∈ engine.achievements, achievement.unlocked = true →
    achievement ∈ later.achievements
  reported : ∀ id, id ∈ report ↔ id ∉ engine.unlockedIds ∧ id ∈ later.unlockedIds
  ordered : report.Sublist engine.ids
  loaded : later.Loaded

variable {engine later : Engine} {report : List String}

theorem attends_of_frame (loaded : engine.Loaded) (view : RamView) :
    engine.Attends (engine.frame view).1 (engine.frame view).2 where
  kept := by
    intro achievement member unlocked
    rw [frame_eq]
    have same : (achievement.step (engine.history.advance view)).1 = achievement :=
      congrArg Prod.fst (Achievement.step_of_unlocked unlocked _)
    exact List.mem_map.mpr ⟨achievement, member, same⟩
  reported := by
    intro id
    have after : id ∈ (engine.frame view).1.unlockedIds ↔ ∃ achievement ∈ engine.achievements,
        (achievement.step (engine.history.advance view)).1.unlocked = true ∧
          achievement.id = id := by
      rw [mem_unlocked_ids, frame_eq]
      simp only [List.mem_map, exists_exists_and_eq_and, Achievement.id_of_step]
    rw [mem_unlocked_of_frame, after]
    constructor
    · rintro ⟨achievement, member, unlocks, rfl⟩
      have both := (achievement.unlocks_iff _).mp unlocks
      refine ⟨?_, achievement, member, both.2, rfl⟩
      intro already
      obtain ⟨other, inAchievements, unlocked, same⟩ := (mem_unlocked_ids engine _).mp already
      have equal := List.inj_on_of_nodup_map loaded.distinct inAchievements member same
      rw [equal, both.1] at unlocked
      cases unlocked
    · rintro ⟨locked, achievement, member, unlocked, rfl⟩
      refine ⟨achievement, member, (achievement.unlocks_iff _).mpr ⟨?_, unlocked⟩, rfl⟩
      apply Bool.eq_false_iff.mpr
      intro already
      exact locked ((mem_unlocked_ids engine _).mpr ⟨achievement, member, already, rfl⟩)
  ordered := by
    rw [report_of_frame]
    exact List.filter_sublist.map _
  loaded := by
    have becomes : engine.Becomes false (engine.frame view).1 := .frame engine view
    exact becomes.loaded loaded

theorem attends_of_load (loaded : engine.Loaded) {id : String} (absent : id ∉ engine.ids)
    (formula : String) : engine.Attends (engine.load id formula) [] where
  kept := by
    intro achievement member _
    rw [achievements_of_load_new (slot_of_absent loaded absent)]
    exact List.mem_append_left _ member
  reported := by
    intro other
    have same : (engine.load id formula).unlockedIds = engine.unlockedIds := by
      rw [unlockedIds, achievements_of_load_new (slot_of_absent loaded absent),
        List.filter_append, List.map_append]
      exact List.append_nil _
    simp [same]
  ordered := List.nil_sublist _
  loaded := loaded_load loaded id formula

theorem attends_of_occasion (loaded : engine.Loaded) {occasion : Occasion}
    (new : ∀ id ∈ occasion.loads, id ∉ engine.ids) :
    engine.Attends (engine.attend occasion).1 (engine.attend occasion).2 := by
  cases occasion with
  | frame view => exact attends_of_frame loaded view
  | save =>
      exact ⟨fun _ member _ => member, by simp [attend], List.nil_sublist _, loaded⟩
  | load id formula => exact attends_of_load loaded (new id (List.mem_singleton_self id)) formula

theorem ids_of_attend (loaded : engine.Loaded) {occasion : Occasion}
    (new : ∀ id ∈ occasion.loads, id ∉ engine.ids) :
    (engine.attend occasion).1.ids = engine.ids ++ occasion.loads := by
  cases occasion with
  | frame view =>
      have becomes : engine.Becomes false (engine.frame view).1 := .frame engine view
      exact becomes.ids.trans (List.append_nil _).symm
  | save => exact (List.append_nil _).symm
  | load id formula =>
      have absent := new id (List.mem_singleton_self id)
      exact (names_of_load_new (slot_of_absent loaded absent) formula).1

section Run

variable {occasions : List Occasion}

/-- Every occasion of a run returns a list, which is the report of what happens on it. -/
theorem report_at (loaded : engine.Loaded) (anew : engine.LoadsAnew occasions) {index : Nat}
    (below : index < occasions.length) :
    ∃ report, (engine.reports occasions)[index]? = some report ∧
      (engine.attendAll (occasions.take index)).Attends
        (engine.attendAll (occasions.take (index + 1))) report := by
  induction occasions generalizing engine index with
  | nil => cases below
  | cons occasion occasions ih =>
      have attends := attends_of_occasion loaded anew.1
      cases index with
      | zero => exact ⟨_, rfl, attends⟩
      | succ index => exact ih attends.loaded anew.2 (Nat.lt_of_succ_lt_succ below)

/-- Either something happens next, or the run is over. -/
theorem attends_next (loaded : engine.Loaded) (anew : engine.LoadsAnew occasions) (count : Nat) :
    (∃ report, (engine.attendAll (occasions.take count)).Attends
        (engine.attendAll (occasions.take (count + 1))) report) ∨
      occasions.take (count + 1) = occasions.take count := by
  rcases Nat.lt_or_ge count occasions.length with below | beyond
  · have ⟨report, _, attends⟩ := report_at loaded anew below
    exact .inl ⟨report, attends⟩
  · have all := List.take_of_length_le (Nat.le_succ_of_le beyond)
    exact .inr (all.trans (List.take_of_length_le beyond).symm)

theorem loaded_at (loaded : engine.Loaded) (anew : engine.LoadsAnew occasions) (count : Nat) :
    (engine.attendAll (occasions.take count)).Loaded := by
  induction count with
  | zero => exact loaded
  | succ count ih =>
      rcases attends_next loaded anew count with ⟨_, attends⟩ | ended
      · exact attends.loaded
      · rw [ended]
        exact ih

/-- Once unlocked, an achievement stays as it is. -/
theorem kept_at (loaded : engine.Loaded) (anew : engine.LoadsAnew occasions) {count later : Nat}
    (before : count ≤ later) {achievement : Achievement}
    (member : achievement ∈ (engine.attendAll (occasions.take count)).achievements)
    (unlocked : achievement.unlocked = true) :
    achievement ∈ (engine.attendAll (occasions.take later)).achievements := by
  induction before with
  | refl => exact member
  | @step later _ ih =>
      rcases attends_next loaded anew later with ⟨_, attends⟩ | ended
      · exact attends.kept achievement ih unlocked
      · rw [ended]
        exact ih

theorem ids_of_attend_all (loaded : engine.Loaded) (anew : engine.LoadsAnew occasions) :
    (engine.attendAll occasions).ids = engine.ids ++ occasions.flatMap Occasion.loads := by
  induction occasions generalizing engine with
  | nil => exact (List.append_nil _).symm
  | cons occasion occasions ih =>
      have rest := ih (attends_of_occasion loaded anew.1).loaded anew.2
      rw [ids_of_attend loaded anew.1, List.append_assoc] at rest
      exact rest

theorem unlocked_of_kept {id : String} (unlocked : id ∈ engine.unlockedIds)
    (kept : ∀ achievement ∈ engine.achievements, achievement.unlocked = true →
      achievement ∈ later.achievements) : id ∈ later.unlockedIds := by
  obtain ⟨achievement, member, already, same⟩ := (mem_unlocked_ids engine id).mp unlocked
  exact (mem_unlocked_ids later id).mpr
    ⟨achievement, kept achievement member already, already, same⟩

/-- What is reported in a whole run is what unlocks in it. -/
theorem mem_reports (loaded : engine.Loaded) (anew : engine.LoadsAnew occasions) (id : String) :
    id ∈ (engine.reports occasions).flatten ↔
      id ∉ engine.unlockedIds ∧ id ∈ (engine.attendAll occasions).unlockedIds := by
  induction occasions generalizing engine with
  | nil => simp [reports, attendAll]
  | cons occasion occasions ih =>
      have attends := attends_of_occasion loaded anew.1
      have before : id ∈ engine.unlockedIds → id ∈ (engine.attend occasion).1.unlockedIds :=
        fun unlocked => unlocked_of_kept unlocked attends.kept
      have after : id ∈ (engine.attend occasion).1.unlockedIds →
          id ∈ (engine.attendAll (occasion :: occasions)).unlockedIds := by
        intro unlocked
        refine unlocked_of_kept unlocked fun achievement member already => ?_
        have kept := kept_at attends.loaded anew.2 (Nat.zero_le occasions.length) member already
        rw [List.take_length] at kept
        exact kept
      have split : id ∈ (engine.reports (occasion :: occasions)).flatten ↔
          id ∈ (engine.attend occasion).2 ∨
            id ∈ ((engine.attend occasion).1.reports occasions).flatten := List.mem_append
      have rest : _ ↔ _ ∧ id ∈ (engine.attendAll (occasion :: occasions)).unlockedIds :=
        ih attends.loaded anew.2
      rw [split, attends.reported, rest]
      tauto

theorem nodup_reports (loaded : engine.Loaded) (anew : engine.LoadsAnew occasions) :
    (engine.reports occasions).flatten.Nodup := by
  induction occasions generalizing engine with
  | nil => exact List.nodup_nil
  | cons occasion occasions ih =>
      have attends := attends_of_occasion loaded anew.1
      refine List.nodup_append'.mpr
        ⟨attends.ordered.nodup loaded.distinct, ih attends.loaded anew.2, ?_⟩
      intro id now later
      -- What is reported now is unlocked from now on, and later reports are of locked ones.
      have unlocked := ((attends.reported id).mp now).2
      exact ((mem_reports attends.loaded anew.2 id).mp later).1 unlocked

end Run

/-- In whatever can follow any history of an engine without restoring and without loading an id
again, every unlock is reported once, on the occasion on which it happens, and in the order of
loading; and an unlocked achievement is never changed. -/
theorem unlocks_are_reported_once (framesPerSecond : UInt32) (view : RamView)
    (operations : List Operation) (occasions : List Occasion)
    (anew : ((create framesPerSecond view).run operations).LoadsAnew occasions) :
    let engine := (create framesPerSecond view).run operations
    let after := fun count => engine.attendAll (occasions.take count)
    (engine.reports occasions).flatten.Nodup ∧
      (∀ id, id ∈ (engine.reports occasions).flatten ↔
        (id ∈ engine.ids ∧ id ∉ engine.unlockedIds ∨ id ∈ occasions.flatMap Occasion.loads) ∧
          id ∈ (engine.attendAll occasions).unlockedIds) ∧
      (∀ index < occasions.length, ∃ report, (engine.reports occasions)[index]? = some report ∧
        report.Sublist (after index).ids ∧
        ∀ id, id ∈ report ↔
          id ∉ (after index).unlockedIds ∧ id ∈ (after (index + 1)).unlockedIds) ∧
      ∀ count later, count ≤ later → ∀ achievement ∈ (after count).achievements,
        achievement.unlocked = true →
          (after later).find? achievement.id = some achievement := by
  intro engine after
  have loaded : engine.Loaded :=
    (sound_run (sound_create framesPerSecond view) operations).toLoaded
  refine ⟨nodup_reports loaded anew, ?_, ?_, ?_⟩
  · intro id
    have ids := ids_of_attend_all loaded anew
    have last := (loaded_at loaded anew occasions.length).distinct
    rw [List.take_length, ids, List.nodup_append'] at last
    have known : id ∈ (engine.attendAll occasions).unlockedIds →
        id ∈ engine.ids ∨ id ∈ occasions.flatMap Occasion.loads := by
      intro unlocked
      obtain ⟨achievement, member, _, rfl⟩ := (mem_unlocked_ids _ id).mp unlocked
      rw [← List.mem_append, ← ids]
      exact List.mem_map_of_mem member
    have new : id ∈ occasions.flatMap Occasion.loads → id ∉ engine.unlockedIds := by
      intro loads unlocked
      obtain ⟨achievement, member, _, rfl⟩ := (mem_unlocked_ids _ id).mp unlocked
      exact last.2.2 (List.mem_map_of_mem member) loads
    rw [mem_reports loaded anew]
    tauto
  · intro index below
    have ⟨report, returned, attends⟩ := report_at loaded anew below
    exact ⟨report, returned, attends.ordered, attends.reported⟩
  · intro count later before achievement member unlocked
    exact find_of_mem (loaded_at loaded anew later) (kept_at loaded anew before member unlocked)

/-- One unlock is saved, an achievement comes late, memory cannot be read once, and in the end three
unlock on one frame. -/
def eventfulRun : List Occasion :=
  [.frame (.readable ⟨#[1, 0]⟩), .save, .load "late" "0xH0=1(3)",
    .frame (.unreadable 2 (.unavailable "gone")), .frame (.readable ⟨#[1, 1]⟩),
    .frame (.readable ⟨#[1, 1]⟩)]

theorem eventful_run_reports_once :
    let engine := (create 60 (.readable ⟨#[0, 0]⟩)).run (neighbours.map fun entry =>
      .load entry.1 entry.2)
    let after := fun count => engine.attendAll (eventfulRun.take count)
    engine.LoadsAnew eventfulRun ∧
      engine.reports eventfulRun = [["door"], [], [], [], [], ["boss", "coins", "late"]] ∧
      (engine.reports eventfulRun).flatten.Nodup ∧
      ∀ achievement ∈ (after 1).achievements, achievement.unlocked = true →
        (after 6).find? achievement.id = some achievement := by
  intro engine after
  have anew : engine.LoadsAnew eventfulRun := by decide +kernel
  have once := unlocks_are_reported_once 60 (.readable ⟨#[0, 0]⟩) _ eventfulRun anew
  exact ⟨anew, by decide +kernel, once.1, once.2.2.2 1 6 (by decide)⟩

end Engine

end Achievements
