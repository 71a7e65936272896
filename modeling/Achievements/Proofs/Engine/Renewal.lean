import Achievements.Proofs.Engine.Separation

/-!
# Restoring and power-on start anew

All that an engine keeps of its past is the progress of its achievements and the memory it has seen.
Restoring a state overwrites both, and so does a return to power-on, if memory can be read:
`Engine.restore_starts_anew` compares the engine with a new one that has loaded the same formulas.
-/

set_option autoImplicit false

namespace Achievements

namespace Engine

/-- What is loaded, in the order of the places. -/
def entries (engine : Engine) : List (String × String) :=
  engine.achievements.map Achievement.entry

/-- The index lists the ids in the order of their places. Look-ups alone do not say so much. -/
def Ordered (engine : Engine) : Prop :=
  engine.index = engine.ids.zipIdx

variable {engine : Engine}

theorem ordered_load (loaded : engine.Loaded) (ordered : engine.Ordered) (id formula : String) :
    (engine.load id formula).Ordered := by
  unfold Ordered
  cases found : engine.slot? id with
  | some slot =>
      have place := (loaded.indexed id slot).mp found
      obtain ⟨sameIds, sameIndex⟩ := names_of_load_again found place formula
      rw [sameIds, sameIndex]
      exact ordered
  | none =>
      obtain ⟨moreIds, moreIndex⟩ := names_of_load_new found formula
      rw [moreIds, moreIndex, List.zipIdx_append, ordered]
      simp

theorem ordered_run (framesPerSecond : UInt32) (start : RamView) (operations : List Operation) :
    ((create framesPerSecond start).run operations).Ordered := by
  refine (keeps_of_run (fun engine => engine.Loaded ∧ engine.Ordered) operations ?_ ?_).2
  · intro operation _ before ⟨loaded, ordered⟩
    rcases before.becomes_of_perform operation with ⟨id, formula, rfl⟩ | becomes
    · exact ⟨loaded_load loaded id formula, ordered_load loaded ordered id formula⟩
    · refine ⟨becomes.loaded loaded, ?_⟩
      rw [Ordered, becomes.index, becomes.ids]
      exact ordered
  · exact ⟨(sound_create framesPerSecond start).toLoaded, rfl⟩

/-! ## Memory plays no part in restoring -/

theorem modify_match_elsewhere (engine : Engine) (history : History) (id : String)
    (change : Achievement → Achievement) :
    ({ engine with history } : Engine).modifyMatch id change =
      { engine.modifyMatch id change with history } := by
  have sameMatch : ({ engine with history } : Engine).matchSlot? id = engine.matchSlot? id := rfl
  unfold modifyMatch
  rw [sameMatch]
  cases engine.matchSlot? id with
  | none => rfl
  | some slot => rfl

theorem foldl_elsewhere {α : Type} (items : List α) (change : Engine → α → Engine)
    (elsewhere : ∀ (before : Engine) (history : History) (item : α),
      change { before with history } item = { change before item with history })
    (engine : Engine) (history : History) :
    items.foldl change { engine with history } =
      { items.foldl change engine with history } := by
  induction items generalizing engine with
  | nil => rfl
  | cons item items ih => rw [List.foldl_cons, elsewhere, ih, List.foldl_cons]

/-- Memory that can be read takes the place of all that was seen. -/
theorem resync_elsewhere (engine : Engine) (history : History) (ram : Ram) :
    ({ engine with history } : Engine).resync (.readable ram) = engine.resync (.readable ram) :=
  rfl

/-- Engines that clear to the same restore to the same, whatever memory they have seen. -/
theorem restore_of_clear_eq {other : Engine} {history : History}
    (same : engine.clear = { other.clear with history }) (state : SavedState) (ram : Ram) :
    engine.restore state (.readable ram) = other.restore state (.readable ram) := by
  have completed := foldl_elsewhere state.completed complete
    (fun before history id => modify_match_elsewhere before history id _) other.clear history
  have resumed := foldl_elsewhere state.progress.entries
    (fun engine stored => engine.applyProgress stored.1 stored.2)
    (fun before history stored => modify_match_elsewhere before history stored.1 _)
    (state.completed.foldl complete other.clear) history
  simp only [restore, same, completed, resumed, resync_elsewhere]

/-! ## Starting anew -/

theorem achievements_of_clear (loaded : engine.Loaded) :
    engine.clear.achievements = engine.entries.map (.ofEntry engine.framesPerSecond) := by
  rw [entries, List.map_map]
  apply List.map_congr_left
  intro achievement member
  rw [Achievement.powerOn_eq, loaded.compiled achievement member]
  rfl

/-- A new engine that loads all that an engine has loaded. -/
def anew (engine : Engine) (ram : Ram) : Engine :=
  (create engine.framesPerSecond (.readable ram)).loadAll engine.entries

theorem achievements_of_anew (loaded : engine.Loaded) (ram : Ram) :
    (engine.anew ram).achievements = engine.entries.map (.ofEntry engine.framesPerSecond) := by
  have distinct : (engine.entries.map Prod.fst).Nodup := engine.ids_eq ▸ loaded.distinct
  exact achievements_of_load_all (sound_create _ _).toLoaded engine.entries distinct
    fun _ _ => List.not_mem_nil

theorem entries_of_anew (loaded : engine.Loaded) (ram : Ram) :
    (engine.anew ram).entries = engine.entries := by
  rw [entries, achievements_of_anew loaded, List.map_map]
  exact List.map_id _

theorem rate_of_anew (engine : Engine) (ram : Ram) :
    (engine.anew ram).framesPerSecond = engine.framesPerSecond := by
  rw [anew, load_all_eq_run, rate_of_run]
  rfl

theorem history_of_anew (engine : Engine) (ram : Ram) :
    (engine.anew ram).history = .capture (.readable ram) :=
  congrArg Engine.history (load_all_elsewhere (create engine.framesPerSecond (.readable ram))
    (.capture (.readable ram)) engine.entries)

/-- What was loaded is all that is left of an engine when its achievements go back to power-on. -/
theorem clear_eq_anew (loaded : engine.Loaded) (ordered : engine.Ordered) (ram : Ram) :
    engine.clear = { engine.anew ram with history := engine.history } := by
  have orderedAnew : (engine.anew ram).Ordered := by
    rw [anew, load_all_eq_run]
    exact ordered_run _ _ _
  have sameIds : (engine.anew ram).ids = engine.ids := by
    rw [ids_eq, ids_eq]
    exact congrArg (List.map Prod.fst) (entries_of_anew loaded ram)
  have sameIndex : engine.index = (engine.anew ram).index := by
    rw [ordered, orderedAnew, sameIds]
  have sameAchievements : engine.clear.achievements = (engine.anew ram).achievements := by
    rw [achievements_of_clear loaded, achievements_of_anew loaded]
  have sameRate := engine.rate_of_anew ram
  rw [clear] at sameAchievements ⊢
  simp only at sameAchievements
  rw [sameAchievements, sameIndex, ← sameRate]

/-- Whatever an engine has been through, restoring a state leaves it exactly as it leaves a new engine
that sees the same memory and has loaded the same formulas in the same order, and a return to power-on
leaves it as that new engine is before. -/
theorem restore_starts_anew (framesPerSecond : UInt32) (start : RamView)
    (operations : List Operation) (state : SavedState) (ram : Ram) :
    let engine := (create framesPerSecond start).run operations
    let fresh := (create framesPerSecond (.readable ram)).loadAll engine.entries
    engine.restore state (.readable ram) = fresh.restore state (.readable ram) ∧
      engine.powerOn (.readable ram) = fresh := by
  intro engine fresh
  have rate : engine.framesPerSecond = framesPerSecond := rate_of_run _ operations
  have isAnew : fresh = engine.anew ram := by rw [anew, rate]
  have loaded : engine.Loaded := (sound_run (sound_create framesPerSecond start) operations).toLoaded
  have loadedAnew : (engine.anew ram).Loaded := (sound_load_all _ _ _).toLoaded
  have cleared := clear_eq_anew loaded (ordered_run framesPerSecond start operations) ram
  -- A new engine has nothing to lose.
  have clearedAnew : (engine.anew ram).clear = engine.anew ram := by
    have same : (engine.anew ram).clear.achievements = (engine.anew ram).achievements := by
      rw [achievements_of_clear loadedAnew, entries_of_anew loaded, rate_of_anew,
        achievements_of_anew loaded]
    exact congrArg (fun achievements => { engine.anew ram with achievements }) same
  rw [isAnew]
  constructor
  · rw [← clearedAnew] at cleared
    exact restore_of_clear_eq cleared state ram
  · rw [powerOn, cleared, resync_elsewhere]
    have current : (engine.anew ram).history.resync (.readable ram) = (engine.anew ram).history := by
      rw [history_of_anew]
      rfl
    exact congrArg (fun history => { engine.anew ram with history }) current

end Engine

end Achievements
