import Achievements.Proofs.Engine.Operations
import Achievements.Proofs.Engine.Records

/-!
# Restoring a saved state

A stored id that is loaded refers to its own achievement, however many others differ from it by the
case of letters only. A state of such ids is restored achievement by achievement, as
`Achievement.restored` says, and one that was saved brings back every locked achievement as it was.
-/

set_option autoImplicit false

namespace Achievements

namespace Achievement

/-- An achievement that is given its part of a state. -/
def restored (state : SavedState) (achievement : Achievement) : Achievement :=
  if achievement.id ∈ state.completed then { achievement.powerOn with unlocked := true }
  else
    match state.progress.find? achievement.id with
    | some progress => achievement.powerOn.applyProgress progress
    | none => achievement.powerOn

variable {achievement other : Achievement}

/-- Power-on leaves nothing of an achievement but what was loaded. -/
theorem powerOn_eq (achievement : Achievement) :
    achievement.powerOn = .fresh achievement.id achievement.formula achievement.clauses := by
  simp only [powerOn, resetProgress, fresh, clauses, List.map_map]
  rfl

theorem powerOn_of_loaded (sameEntry : other.entry = achievement.entry)
    (sameClauses : other.clauses = achievement.clauses) : other.powerOn = achievement.powerOn := by
  have sameId : other.id = achievement.id := congrArg Prod.fst sameEntry
  have sameFormula : other.formula = achievement.formula := congrArg Prod.snd sameEntry
  rw [powerOn_eq, powerOn_eq, sameId, sameFormula, sameClauses]

/-- What is restored depends on nothing that happened since power-on. -/
theorem restored_of_powerOn (state : SavedState) (same : other.powerOn = achievement.powerOn) :
    other.restored state = achievement.restored state := by
  have samePowerOnId := congrArg Achievement.id same
  have sameId : other.id = achievement.id := samePowerOnId
  simp only [restored, same, sameId]

theorem restored_of_turn {restoring : Bool} (state : SavedState)
    (turn : Turn restoring achievement other) :
    other.restored state = achievement.restored state :=
  restored_of_powerOn state (powerOn_of_loaded (entry_of_turn turn) (clauses_of_turn turn))

/-- The second achievement stands for the first one: the same if that is locked, and otherwise any
unlocked one of its id. -/
structure StandsFor (second first : Achievement) : Prop where
  id : second.id = first.id
  unlocked : second.unlocked = first.unlocked
  locked : first.unlocked = false → second = first

/-- Counters within their targets are not changed by being stored. -/
theorem restore_counters {conditions : List Condition}
    (bounded : ∀ condition ∈ conditions, condition.Bounded) :
    restoreCounters (conditions.map Condition.reset) (conditions.map (·.counter)) = conditions := by
  induction conditions with
  | nil => rfl
  | cons condition conditions ih =>
      rw [List.forall_mem_cons] at bounded
      have kept : restoreCounter condition.reset condition.counter = condition := by
        obtain ⟨clause, hits, met⟩ := condition
        have within := bounded.1
        simp only [Condition.Bounded] at within
        have sameHits : (if 0 < clause.target then min hits clause.target else hits) = hits := by
          split
          · exact Std.LawfulOrderLeftLeaningMin.min_eq_left _ _ (within ‹_›)
          · rfl
        exact congrArg (fun hits => (⟨clause, hits, met⟩ : Condition)) sameHits
      simp only [List.map_cons, restoreCounters, kept, ih bounded.2]

theorem applyProgress_progress (locked : achievement.unlocked = false)
    (bounded : achievement.Bounded) :
    achievement.powerOn.applyProgress achievement.progress = achievement := by
  have sameRemembered :
      (achievement.remembered.map StoredNumber.ofNumber).map StoredNumber.toNumber =
        achievement.remembered := by
    cases achievement.remembered with
    | none => rfl
    | some value => exact congrArg some (StoredNumber.toNumber_ofNumber value)
  have sameConditions := restore_counters bounded
  simp only [applyProgress, progress, powerOn, resetProgress, sameRemembered, sameConditions,
    ← locked]

theorem fold_unlock (completed : List String) (achievement : Achievement) :
    completed.foldl (fun achievement id =>
        if achievement.id = id then { achievement with unlocked := true } else achievement)
        achievement =
      if achievement.id ∈ completed then { achievement with unlocked := true }
      else achievement := by
  induction completed generalizing achievement with
  | nil => simp
  | cons id completed ih =>
      rw [List.foldl_cons, ih]
      by_cases here : achievement.id = id
      · simp [here]
      · simp [here]

theorem id_of_resumed (progress : Progress) (achievement : Achievement) :
    (achievement.resumed progress).id = achievement.id := by
  unfold resumed
  split <;> rfl

/-- What is stored under an id once is applied once. -/
theorem fold_resume (entries : List (String × Progress)) (distinct : (entries.map Prod.fst).Nodup)
    (achievement : Achievement) :
    entries.foldl (fun achievement stored =>
        if achievement.id = stored.1 then achievement.resumed stored.2 else achievement)
        achievement =
      match entries.lookup achievement.id with
      | some progress => achievement.resumed progress
      | none => achievement := by
  induction entries generalizing achievement with
  | nil => rfl
  | cons stored entries ih =>
      obtain ⟨id, progress⟩ := stored
      rw [List.map_cons, List.nodup_cons] at distinct
      rw [List.foldl_cons, ih distinct.2, IdMap.lookup_cons_eq]
      by_cases here : achievement.id = id
      · have absent : entries.lookup id = none := by
          rw [List.lookup_eq_none_iff]
          intro other member
          exact bne_iff_ne.mpr fun same =>
            distinct.1 (List.mem_map.mpr ⟨other, member, same.symm⟩)
        rw [if_pos here, if_pos here, id_of_resumed, here, absent]
      · rw [if_neg here, if_neg here]

end Achievement

namespace Engine

/-- Are all ids of a state loaded? -/
structure Knows (engine : Engine) (state : SavedState) : Prop where
  completed : ∀ id ∈ state.completed, id ∈ engine.ids
  progress : ∀ id ∈ state.progress.ids, id ∈ engine.ids

variable {engine : Engine}

/-- The loaded id that a stored id refers to: the same id, else the first one equal to it in lower
case. -/
def matchId? (engine : Engine) (key : String) : Option String :=
  if key ∈ engine.ids then some key
  else engine.ids.find? fun id => Text.lowerCase id == Text.lowerCase key

theorem match_id_of_known {key : String} (known : key ∈ engine.ids) :
    engine.matchId? key = some key :=
  if_pos known

theorem mem_ids_of_match {key id : String} (matched : engine.matchId? key = some id) :
    id ∈ engine.ids := by
  unfold matchId? at matched
  split at matched
  · rename_i known
    exact Option.some.inj matched ▸ known
  · exact List.mem_of_find?_eq_some matched

theorem match_slot_eq (loaded : engine.Loaded) (key : String) :
    engine.matchSlot? key = (engine.matchId? key).bind engine.slot? := by
  by_cases known : key ∈ engine.ids
  · obtain ⟨slot, place⟩ := List.mem_iff_getElem?.mp known
    have found := (loaded.indexed key slot).mpr place
    -- A loaded id is found as it is, so the search that ignores case is never made.
    simp only [match_id_of_known known, matchSlot?, found, Option.bind_some]
  · have absent : engine.slot? key = none := by
      rw [Option.eq_none_iff_forall_ne_some]
      intro slot found
      exact known (List.mem_of_getElem? ((loaded.indexed key slot).mp found))
    have searched : engine.matchId? key =
        (engine.achievements.find? fun achievement =>
          Text.lowerCase achievement.id == Text.lowerCase key).map (·.id) := by
      rw [matchId?, if_neg known, ids, List.find?_map]
      rfl
    simp only [matchSlot?, absent, searched]
    cases place : engine.achievements.findIdx? fun achievement =>
        Text.lowerCase achievement.id == Text.lowerCase key with
    | none =>
        rw [List.findIdx?_eq_none_iff] at place
        rw [List.find?_eq_none.mpr fun achievement member => by simp [place achievement member]]
        rfl
    | some slot =>
        obtain ⟨below, holds, first⟩ := List.findIdx?_eq_some_iff_getElem.mp place
        have found : engine.achievements.find? (fun achievement =>
            Text.lowerCase achievement.id == Text.lowerCase key) =
              some engine.achievements[slot] := by
          rw [List.find?_eq_some_iff_getElem]
          exact ⟨holds, slot, below, rfl, fun earlier inside => by simpa using first earlier inside⟩
        have own : engine.ids[slot]? = some engine.achievements[slot].id := by
          rw [ids, List.getElem?_map, List.getElem?_eq_getElem below]
          rfl
        rw [found, Option.map_some, Option.bind_some, (loaded.indexed _ slot).mpr own]

theorem achievements_of_modify (loaded : engine.Loaded) (key : String)
    (change : Achievement → Achievement) :
    (engine.modifyMatch key change).achievements = engine.achievements.map fun achievement =>
      if engine.matchId? key = some achievement.id then change achievement else achievement := by
  have matched := match_slot_eq loaded key
  cases named : engine.matchId? key with
  | none =>
      rw [named] at matched
      simp [modifyMatch, matched]
  | some id =>
      obtain ⟨slot, place⟩ := List.mem_iff_getElem?.mp (mem_ids_of_match named)
      have found := (loaded.indexed id slot).mpr place
      rw [named, Option.bind_some, found] at matched
      simp only [modifyMatch, matched]
      apply List.ext_getElem?
      intro index
      rw [List.getElem?_modify, List.getElem?_map]
      cases here : engine.achievements[index]? with
      | none => rfl
      | some achievement =>
          have own : engine.ids[index]? = some achievement.id := by
            rw [ids, List.getElem?_map, here]
            rfl
          have sameId : slot = index ↔ some id = some achievement.id := by
            constructor
            · rintro rfl
              exact place.symm.trans own
            · intro same
              rw [same, ← own] at place
              have below := (List.getElem?_eq_some_iff.mp own).1
              exact ((List.getElem?_inj below loaded.distinct).mp place.symm).symm
          simp only [Option.map_eq_map, Option.map_some, sameId]

/-- A change of several achievements, one after another, is a change of each of them. -/
theorem achievements_of_modify_all {α : Type} (items : List α) (key : α → String)
    (change : α → Achievement → Achievement)
    (turns : ∀ item achievement, Achievement.Turns true achievement (change item achievement))
    (loaded : engine.Loaded) :
    (items.foldl (fun engine item => engine.modifyMatch (key item) (change item))
        engine).achievements =
      engine.achievements.map fun achievement =>
        items.foldl (fun achievement item =>
          if engine.matchId? (key item) = some achievement.id then change item achievement
          else achievement) achievement := by
  induction items generalizing engine with
  | nil => simp
  | cons item items ih =>
      have becomes := Becomes.modify_match engine (key item) (change item) (turns item)
      -- A change keeps the ids, so the later items refer to what they referred to before.
      have sameMatch : (engine.modifyMatch (key item) (change item)).matchId? = engine.matchId? := by
        funext key
        rw [matchId?, becomes.ids, matchId?]
      simp only [List.foldl_cons]
      rw [ih (becomes.loaded loaded), sameMatch, achievements_of_modify loaded, List.map_map]
      rfl

/-- Loaded ids refer to nothing but their own achievements. -/
theorem achievements_of_modify_known {α : Type} (items : List α) (key : α → String)
    (change : α → Achievement → Achievement)
    (turns : ∀ item achievement, Achievement.Turns true achievement (change item achievement))
    (loaded : engine.Loaded) (known : ∀ item ∈ items, key item ∈ engine.ids) :
    (items.foldl (fun engine item => engine.modifyMatch (key item) (change item))
        engine).achievements =
      engine.achievements.map fun achievement =>
        items.foldl (fun achievement item =>
          if achievement.id = key item then change item achievement else achievement)
          achievement := by
  rw [achievements_of_modify_all items key change turns loaded]
  apply List.map_congr_left
  intro achievement _
  apply List.foldl_ext
  intro later item member
  simp only [match_id_of_known (known item member), Option.some.injEq, eq_comm]

theorem achievements_of_complete_all (loaded : engine.Loaded) (completed : List String)
    (known : ∀ id ∈ completed, id ∈ engine.ids) :
    (completed.foldl complete engine).achievements = engine.achievements.map fun achievement =>
      if achievement.id ∈ completed then { achievement with unlocked := true }
      else achievement := by
  have unlocks : ∀ (_ : String) (achievement : Achievement),
      Achievement.Turns true achievement { achievement with unlocked := true } :=
    fun _ achievement => .single (.unlock achievement rfl)
  have folded : (completed.foldl complete engine).achievements = _ :=
    achievements_of_modify_known completed id _ unlocks loaded known
  simp only [folded, id_eq, Achievement.fold_unlock]

theorem achievements_of_resume_all (loaded : engine.Loaded) (progress : IdMap Progress)
    (known : ∀ id ∈ progress.ids, id ∈ engine.ids) :
    (progress.entries.foldl (fun engine stored => engine.applyProgress stored.1 stored.2)
        engine).achievements =
      engine.achievements.map fun achievement =>
        match progress.find? achievement.id with
        | some stored => achievement.resumed stored
        | none => achievement := by
  have knownKeys : ∀ stored ∈ progress.entries, stored.1 ∈ engine.ids :=
    fun stored member => known _ (List.mem_map_of_mem member)
  refine (achievements_of_modify_known progress.entries Prod.fst _
    (fun stored => Achievement.turns_of_resumed stored.2) loaded knownKeys).trans ?_
  apply List.map_congr_left
  intro achievement _
  exact Achievement.fold_resume progress.entries progress.distinct_ids achievement

/-- A state of loaded ids is restored achievement by achievement. -/
theorem achievements_of_restore (loaded : engine.Loaded) {state : SavedState}
    (knows : engine.Knows state) (view : RamView) :
    (engine.restore state view).achievements =
      engine.achievements.map (Achievement.restored state) := by
  have cleared : engine.Becomes true engine.clear := .clear engine
  have completed := Becomes.complete_all engine.clear state.completed
  have knownUnlocks : ∀ id ∈ state.completed, id ∈ engine.clear.ids := by
    rw [cleared.ids]
    exact knows.completed
  have knownProgress : ∀ id ∈ state.progress.ids,
      id ∈ (state.completed.foldl complete engine.clear).ids := by
    rw [completed.ids, cleared.ids]
    exact knows.progress
  have afterUnlocks := achievements_of_complete_all (cleared.loaded loaded) _ knownUnlocks
  have afterProgress : (engine.restore state view).achievements = _ :=
    achievements_of_resume_all (completed.loaded (cleared.loaded loaded)) _ knownProgress
  rw [afterProgress, afterUnlocks, clear, List.map_map, List.map_map]
  apply List.map_congr_left
  intro achievement _
  have sameId : achievement.powerOn.id = achievement.id := rfl
  simp only [Function.comp_apply, Achievement.restored, sameId]
  by_cases done : achievement.id ∈ state.completed
  · simp only [if_pos done, Achievement.resumed, if_true]
    split <;> rfl
  · simp only [if_neg done, sameId]
    split <;> rfl

theorem find_of_mem (loaded : engine.Loaded) {achievement : Achievement}
    (member : achievement ∈ engine.achievements) : engine.find? achievement.id = some achievement := by
  obtain ⟨slot, place⟩ := List.mem_iff_getElem?.mp member
  have own : engine.ids[slot]? = some achievement.id := by
    rw [ids, List.getElem?_map, place]
    rfl
  simp only [find?, (loaded.indexed _ slot).mpr own, place]

def unlockedIds (engine : Engine) : List String :=
  (engine.achievements.filter (·.unlocked)).map (·.id)

theorem mem_unlocked_ids (engine : Engine) (id : String) :
    id ∈ engine.unlockedIds ↔
      ∃ achievement ∈ engine.achievements, achievement.unlocked = true ∧ achievement.id = id := by
  simp [unlockedIds, and_assoc]

theorem completed_of_save (engine : Engine) : engine.save.completed = engine.unlockedIds := by
  rw [save, List.partition_eq_filter_filter, unlockedIds]

theorem progress_of_save (loaded : engine.Loaded) {achievement : Achievement}
    (member : achievement ∈ engine.achievements) (locked : achievement.unlocked = false) :
    engine.save.progress.find? achievement.id = some achievement.progress := by
  simp only [save, List.partition_eq_filter_filter]
  apply IdMap.find_of_inserted
  · have sub : ((engine.achievements.filter (not ∘ (·.unlocked))).map (·.id)).Sublist engine.ids :=
      List.filter_sublist.map _
    rw [List.map_map]
    exact loaded.distinct.sublist sub
  · rw [List.mem_map]
    refine ⟨achievement, List.mem_filter.mpr ⟨member, ?_⟩, rfl⟩
    simp [locked]

theorem knows_save {other : Engine} (known : ∀ id ∈ engine.ids, id ∈ other.ids) :
    other.Knows engine.save where
  completed := by
    intro id completed
    rw [completed_of_save] at completed
    obtain ⟨achievement, member, _, rfl⟩ := (mem_unlocked_ids engine id).mp completed
    exact known _ (List.mem_map_of_mem member)
  progress := by
    intro id stored
    obtain ⟨entry, member, rfl⟩ := List.mem_map.mp stored
    simp only [save, List.partition_eq_filter_filter] at member
    rcases IdMap.mem_of_insert_all _ _ member with absent | inserted
    · cases absent
    · obtain ⟨achievement, locked, rfl⟩ := List.mem_map.mp inserted
      exact known _ (List.mem_map_of_mem (List.mem_of_mem_filter locked))

/-- What an engine has saved brings its own achievements back: an unlocked one is unlocked, and a
locked one is as it was. -/
theorem stands_for_of_restored (sound : engine.Sound) {achievement : Achievement}
    (member : achievement ∈ engine.achievements) :
    (achievement.restored engine.save).StandsFor achievement := by
  have completed : achievement.id ∈ engine.save.completed ↔ achievement.unlocked = true := by
    rw [completed_of_save, mem_unlocked_ids]
    constructor
    · rintro ⟨namesake, present, unlocked, same⟩
      rwa [List.inj_on_of_nodup_map sound.distinct present member same] at unlocked
    · exact fun unlocked => ⟨achievement, member, unlocked, rfl⟩
  cases state : achievement.unlocked with
  | true =>
      rw [Achievement.restored, if_pos (completed.mpr state)]
      exact ⟨rfl, state.symm, fun locked => absurd (locked.symm.trans state) Bool.false_ne_true⟩
  | false =>
      have absent : achievement.id ∉ engine.save.completed := by
        rw [completed, state]
        exact Bool.false_ne_true
      have same : achievement.restored engine.save = achievement := by
        rw [Achievement.restored, if_neg absent, progress_of_save sound.toLoaded member state]
        exact Achievement.applyProgress_progress state (sound.bounded achievement member)
      rw [same]
      exact ⟨rfl, rfl, fun _ => rfl⟩

/-- The same goes for the achievement of another engine that was loaded from the same text. -/
theorem stands_for_of_namesake {other : Engine} (sound : engine.Sound) (loaded : other.Loaded)
    (sameRate : other.framesPerSecond = engine.framesPerSecond)
    {achievement namesake : Achievement} (member : achievement ∈ engine.achievements)
    (present : namesake ∈ other.achievements) (same : namesake.entry = achievement.entry) :
    (namesake.restored engine.save).StandsFor achievement := by
  have sameFormula : namesake.formula = achievement.formula := congrArg Prod.snd same
  have sameClauses : namesake.clauses = achievement.clauses := by
    rw [loaded.compiled namesake present, sound.compiled achievement member, sameRate, sameFormula]
  rw [Achievement.restored_of_powerOn _ (Achievement.powerOn_of_loaded same sameClauses)]
  exact stands_for_of_restored sound member

/-- A state that any engine saves, whatever it has been through, is restored exactly by an engine of
the same rate that has the same formulas under the same ids, in whatever order and state: the same
ids are unlocked, and every locked achievement is as it was. -/
theorem restore_save (framesPerSecond : UInt32) (start view : RamView)
    (operations : List Operation) (other : Engine) (loaded : other.Loaded)
    (rate : other.framesPerSecond = framesPerSecond)
    (sameEntries : ∀ entry, entry ∈ other.achievements.map Achievement.entry ↔
      entry ∈ ((create framesPerSecond start).run operations).achievements.map Achievement.entry) :
    let engine := (create framesPerSecond start).run operations
    let restored := other.restore engine.save view
    (∀ id, id ∈ restored.unlockedIds ↔ id ∈ engine.unlockedIds) ∧
      ∀ achievement ∈ engine.achievements, achievement.unlocked = false →
        restored.find? achievement.id = some achievement := by
  intro engine restored
  have sound : engine.Sound := sound_run (sound_create framesPerSecond start) operations
  have ownRate : engine.framesPerSecond = framesPerSecond := rate_of_run _ operations
  have sameRate : other.framesPerSecond = engine.framesPerSecond := rate.trans ownRate.symm
  have known : ∀ id ∈ engine.ids, id ∈ other.ids := by
    intro id
    rw [ids_eq, ids_eq, List.mem_map, List.mem_map]
    exact fun ⟨entry, member, same⟩ => ⟨entry, (sameEntries entry).mpr member, same⟩
  have restores := achievements_of_restore loaded (knows_save known) view
  have loadedAgain : restored.Loaded := (Becomes.restore other engine.save view).loaded loaded
  constructor
  · intro id
    rw [mem_unlocked_ids, mem_unlocked_ids, restores]
    constructor
    · rintro ⟨_, mapped, unlocked, rfl⟩
      obtain ⟨namesake, present, rfl⟩ := List.mem_map.mp mapped
      obtain ⟨achievement, member, same⟩ := List.mem_map.mp
        ((sameEntries namesake.entry).mp (List.mem_map_of_mem present))
      have stands := stands_for_of_namesake sound loaded sameRate member present same.symm
      exact ⟨achievement, member, stands.unlocked.symm.trans unlocked, stands.id.symm⟩
    · rintro ⟨achievement, member, unlocked, rfl⟩
      obtain ⟨namesake, present, same⟩ := List.mem_map.mp
        ((sameEntries achievement.entry).mpr (List.mem_map_of_mem member))
      have stands := stands_for_of_namesake sound loaded sameRate member present same
      exact ⟨_, List.mem_map_of_mem present, stands.unlocked.trans unlocked, stands.id⟩
  · intro achievement member locked
    obtain ⟨namesake, present, same⟩ := List.mem_map.mp
      ((sameEntries achievement.entry).mpr (List.mem_map_of_mem member))
    have back := List.mem_map_of_mem (f := Achievement.restored engine.save) present
    have stands := stands_for_of_namesake sound loaded sameRate member present same
    rw [← restores, stands.locked locked] at back
    exact find_of_mem loadedAgain back

/-- Two ids that differ by the case of letters only. The second one is unlocked by the second frame,
on which the first one has two hits. -/
def rivals : List Operation :=
  [.load "Boss" "0xH1=1(3)_M:0xH2>=8", .load "boss" "K:0xH3_0xH2=4",
    .frame (.readable ⟨#[0, 1, 0, 7]⟩), .frame (.readable ⟨#[0, 1, 4, 7]⟩)]

/-- The same formulas, loaded in another order and played differently. -/
def rivalsElsewhere : List Operation :=
  [.load "boss" "K:0xH3_0xH2=4", .load "Boss" "0xH1=1(3)_M:0xH2>=8",
    .frame (.unreadable 2 (.unavailable "gone")), .frame (.readable ⟨#[0, 1, 8]⟩)]

theorem rivals_are_restored :
    let engine := (create 60 (.readable ⟨#[0, 0]⟩)).run rivals
    let other := (create 60 (.readable ⟨#[]⟩)).run rivalsElsewhere
    let restored := other.restore engine.save (.readable ⟨#[9]⟩)
    engine.unlockedIds = ["boss"] ∧ other.unlockedIds = [] ∧
      (∀ id, id ∈ restored.unlockedIds ↔ id ∈ engine.unlockedIds) ∧
      ∀ achievement ∈ engine.achievements, achievement.unlocked = false →
        restored.find? achievement.id = some achievement := by
  intro engine other restored
  have loaded : other.Loaded := (sound_run (sound_create 60 _) rivalsElsewhere).toLoaded
  have rate : other.framesPerSecond = 60 := rate_of_run _ rivalsElsewhere
  have entries : (other.achievements.map Achievement.entry).Perm
      (engine.achievements.map Achievement.entry) := by decide +kernel
  exact ⟨by decide +kernel, by decide +kernel,
    restore_save 60 _ _ rivals other loaded rate fun _ => entries.mem_iff⟩

end Engine

end Achievements
