import Achievements.Proofs.Engine.Restoring
import Achievements.Proofs.Engine.Separation

/-!
# Stored ids that are spelled differently

A stored id that is not loaded refers to the first achievement whose id is equal to it in lower case,
whether or not the achievement's own id is stored as well. All records of one achievement are applied
in the order of the stored ids, so a stray record can follow the exact one and replace it, or precede
it and show through where the exact one has no counters. `Engine.exact_match_wins_iff` says when
neither can happen.
-/

set_option autoImplicit false

namespace Achievements

namespace IdMap

variable {α : Type}

theorem entries_around {map : IdMap α} {id : String} {record : α}
    (stored : map.find? id = some record) :
    ∃ before after, map.entries = before ++ (id, record) :: after ∧
      (∀ entry ∈ before, entry.1 < id) ∧ ∀ entry ∈ after, id < entry.1 := by
  obtain ⟨before, after, split⟩ := List.mem_iff_append.mp (mem_entries_iff.mpr stored)
  have sorted := map.sorted
  rw [split, List.pairwise_append, List.pairwise_cons] at sorted
  exact ⟨before, after, split, fun entry inBefore => sorted.2.2 entry inBefore _ List.mem_cons_self,
    sorted.2.1.1⟩

/-- Some ids with a record for each. -/
def ofIds (ids : List String) (sorted : ids.Pairwise (· < ·)) (record : String → α) : IdMap α where
  entries := ids.map fun id => (id, record id)
  sorted := List.pairwise_map.mpr sorted

theorem ids_of_ids {ids : List String} (sorted : ids.Pairwise (· < ·)) (record : String → α) :
    (ofIds ids sorted record).ids = ids := by
  rw [IdMap.ids, ofIds, List.map_map]
  exact List.map_id _

theorem find_of_ids {ids : List String} (sorted : ids.Pairwise (· < ·)) (record : String → α)
    {id : String} (member : id ∈ ids) : (ofIds ids sorted record).find? id = some (record id) := by
  simp only [find?, ofIds]
  clear sorted
  induction ids with
  | nil => cases member
  | cons head rest ih =>
      rw [List.map_cons, lookup_cons_eq]
      split
      · rename_i same
        rw [same]
      · rename_i other
        exact ih ((List.mem_cons.mp member).resolve_left other)

end IdMap

namespace Achievement

/-- Records that are applied one after another. -/
def applyAll (records : List (String × Progress)) (achievement : Achievement) : Achievement :=
  records.foldl (fun achievement stored => achievement.applyProgress stored.2) achievement

variable {achievement : Achievement}

theorem apply_all_append (first second : List (String × Progress)) (achievement : Achievement) :
    achievement.applyAll (first ++ second) = (achievement.applyAll first).applyAll second :=
  List.foldl_append

theorem id_of_apply_all (records : List (String × Progress)) (achievement : Achievement) :
    (achievement.applyAll records).id = achievement.id := by
  induction records generalizing achievement with
  | nil => rfl
  | cons stored records ih => exact ih (achievement.applyProgress stored.2)

theorem restore_no_counters (conditions : List Condition) :
    restoreCounters conditions [] = conditions := by
  cases conditions <;> rfl

/-- An achievement without conditions keeps nothing of a record that another one follows. -/
theorem apply_all_without_conditions (empty : achievement.conditions = [])
    (records : List (String × Progress)) (last : Progress) :
    (achievement.applyAll records).applyProgress last = achievement.applyProgress last := by
  induction records generalizing achievement with
  | nil => rfl
  | cons stored records ih =>
      have still : (achievement.applyProgress stored.2).conditions = [] := by
        rw [applyProgress, empty]
        rfl
      have replaced : (achievement.applyProgress stored.2).applyProgress last =
          achievement.applyProgress last := by
        simp only [applyProgress, empty, restoreCounters]
      exact (ih still).trans replaced

/-- What all records say last is what is left. -/
theorem primed_of_apply_all {records : List (String × Progress)} (nonempty : records ≠ [])
    (primed : ∀ stored ∈ records, stored.2.primed = true) (achievement : Achievement) :
    (achievement.applyAll records).primed = true := by
  induction records generalizing achievement with
  | nil => exact absurd rfl nonempty
  | cons stored records ih =>
      rw [List.forall_mem_cons] at primed
      cases records with
      | nil => exact primed.1
      | cons next records => exact ih (List.cons_ne_nil _ _) primed.2 _

/-- Is the first condition met? -/
def startsMet (achievement : Achievement) : Bool :=
  achievement.conditions.head?.any (·.counter.met)

/-- A first condition that is met stays so unless a record says otherwise. -/
theorem starts_met_of_apply_all {records : List (String × Progress)}
    (met : ∀ stored ∈ records, ∀ counter ∈ stored.2.counters, counter.met = true)
    (before : achievement.startsMet = true) : (achievement.applyAll records).startsMet = true := by
  induction records generalizing achievement with
  | nil => exact before
  | cons stored records ih =>
      rw [List.forall_mem_cons] at met
      apply ih met.2
      unfold startsMet applyProgress at *
      cases conditions : achievement.conditions with
      | nil => simp [conditions] at before
      | cons condition rest =>
          cases counters : stored.2.counters with
          | nil => simpa [conditions, counters, restoreCounters] using before
          | cons counter others =>
              have isMet := met.1 counter (by simp [counters])
              simpa [conditions, counters, restoreCounters, restoreCounter] using isMet

theorem conditions_of_apply_all (records : List (String × Progress)) (achievement : Achievement) :
    (achievement.applyAll records).conditions = [] ↔ achievement.conditions = [] := by
  induction records generalizing achievement with
  | nil => rfl
  | cons stored records ih =>
      have step : (achievement.applyProgress stored.2).conditions = [] ↔
          achievement.conditions = [] := by
        rw [applyProgress]
        cases achievement.conditions <;> cases stored.2.counters <;> simp [restoreCounters]
      exact (ih _).trans step

/-- Progress under the ids that refer to a locked achievement is applied to it, in their order. -/
theorem resume_of_matched (refers : String → Option String) (entries : List (String × Progress))
    (locked : achievement.unlocked = false) :
    entries.foldl (fun achievement stored =>
        if refers stored.1 = some achievement.id then achievement.resumed stored.2
        else achievement) achievement =
      achievement.applyAll (entries.filter fun stored => refers stored.1 = some achievement.id) := by
  induction entries generalizing achievement with
  | nil => rfl
  | cons stored entries ih =>
      rw [List.foldl_cons, List.filter_cons]
      by_cases matched : refers stored.1 = some achievement.id
      · have applied : achievement.resumed stored.2 = achievement.applyProgress stored.2 := by
          rw [resumed, locked]
          exact if_neg Bool.false_ne_true
        have stillLocked : (achievement.applyProgress stored.2).unlocked = false := locked
        rw [if_pos matched, applied, ih stillLocked, if_pos (decide_eq_true matched)]
        rfl
      · rw [if_neg matched, ih locked, if_neg (by simpa using matched)]

theorem starts_met_of_loud {records : List (String × Progress)}
    (met : ∀ stored ∈ records, ∀ counter ∈ stored.2.counters, counter.met = true)
    {loud : String × Progress} (member : loud ∈ records) (counted : loud.2.counters ≠ [])
    (filled : achievement.conditions ≠ []) : (achievement.applyAll records).startsMet = true := by
  obtain ⟨before, after, rfl⟩ := List.mem_iff_append.mp member
  rw [apply_all_append]
  have still : (achievement.applyAll before).conditions ≠ [] :=
    mt (conditions_of_apply_all before achievement).mp filled
  have metAfter : ∀ stored ∈ after, ∀ counter ∈ stored.2.counters, counter.met = true :=
    fun stored inAfter => met stored (by simp [inAfter])
  apply starts_met_of_apply_all metAfter
  obtain ⟨condition, conditions, first⟩ := List.exists_cons_of_ne_nil still
  obtain ⟨counter, counters, counting⟩ := List.exists_cons_of_ne_nil counted
  have isMet := met loud member counter (by simp [counting])
  simp [startsMet, applyProgress, first, counting, restoreCounters, restoreCounter, isMet]

theorem not_met_at_power_on (achievement : Achievement) :
    achievement.powerOn.startsMet = false := by
  rw [startsMet, powerOn, resetProgress]
  cases achievement.conditions <;> rfl

end Achievement

namespace Engine

variable {engine : Engine}

/-- What a state without completions makes of each achievement. -/
theorem achievements_of_restore_progress (loaded : engine.Loaded) {state : SavedState}
    (incomplete : state.completed = []) (view : RamView) :
    (engine.restore state view).achievements = engine.achievements.map fun achievement =>
      achievement.powerOn.applyAll (state.progress.entries.filter fun stored =>
        engine.matchId? stored.1 = some achievement.id) := by
  have cleared : engine.Becomes true engine.clear := .clear engine
  have sameMatch : engine.clear.matchId? = engine.matchId? := by
    funext key
    rw [matchId?, cleared.ids, matchId?]
  have resumed := achievements_of_modify_all state.progress.entries Prod.fst _
    (fun stored => Achievement.turns_of_resumed stored.2) (cleared.loaded loaded)
  have restored : (engine.restore state view).achievements =
      (state.progress.entries.foldl (fun engine stored =>
        engine.modifyMatch stored.1 (Achievement.resumed stored.2)) engine.clear).achievements := by
    rw [restore, incomplete]
    rfl
  rw [restored, resumed, sameMatch, clear, List.map_map]
  apply List.map_congr_left
  intro achievement _
  exact Achievement.resume_of_matched engine.matchId? state.progress.entries rfl

theorem find_of_restore_progress (loaded : engine.Loaded) {state : SavedState}
    (incomplete : state.completed = []) (view : RamView) {achievement : Achievement}
    (member : achievement ∈ engine.achievements) :
    (engine.restore state view).find? achievement.id =
      some (achievement.powerOn.applyAll (state.progress.entries.filter fun stored =>
        engine.matchId? stored.1 = some achievement.id)) := by
  have restored : (engine.restore state view).Loaded :=
    (Becomes.restore engine state view).loaded loaded
  have present := List.mem_map_of_mem (f := fun achievement : Achievement =>
    achievement.powerOn.applyAll (state.progress.entries.filter fun stored =>
      engine.matchId? stored.1 = some achievement.id)) member
  rw [← achievements_of_restore_progress loaded incomplete view] at present
  have found := find_of_mem restored present
  rwa [Achievement.id_of_apply_all] at found

/-- Do the records that refer to an achievement come down to its own one? -/
def OwnRecordWins (engine : Engine) (achievement : Achievement) (ids : List String) : Prop :=
  ∀ state : SavedState, state.completed = [] → state.progress.ids = ids →
    ∀ record, state.progress.find? achievement.id = some record → ∀ view,
      (engine.restore state view).find? achievement.id =
        some (achievement.powerOn.applyProgress record)

variable {achievement : Achievement} {ids : List String}

/-- A stray id at most precedes the achievement's own one, and leaves nothing that shows. -/
def Harmless (engine : Engine) (achievement : Achievement) (ids : List String) : Prop :=
  ∀ key ∈ ids, engine.matchId? key = some achievement.id →
    key = achievement.id ∨ key < achievement.id ∧ achievement.conditions = []

theorem own_record_wins (loaded : engine.Loaded) (member : achievement ∈ engine.achievements)
    (harmless : engine.Harmless achievement ids) : engine.OwnRecordWins achievement ids := by
  intro state incomplete sameIds record stored view
  obtain ⟨before, after, split, earlier, later⟩ := IdMap.entries_around stored
  have known := match_id_of_known (List.mem_map_of_mem (f := (·.id)) member)
  have inIds : ∀ entry ∈ before ++ (achievement.id, record) :: after, entry.1 ∈ ids := by
    rw [← sameIds, IdMap.ids, split]
    exact fun entry inEntries => List.mem_map_of_mem inEntries
  have noneAfter : after.filter (fun entry => engine.matchId? entry.1 = some achievement.id) = [] := by
    rw [List.filter_eq_nil_iff]
    intro entry inAfter matched
    have follows := later entry inAfter
    rcases harmless entry.1 (inIds entry (by simp [inAfter])) (of_decide_eq_true matched) with
      same | precedes
    · exact String.lt_irrefl _ (same ▸ follows)
    · exact String.lt_asymm follows precedes.1
  rw [find_of_restore_progress loaded incomplete view member, split, List.filter_append,
    List.filter_cons, if_pos (decide_eq_true known), noneAfter, Achievement.apply_all_append]
  apply congrArg some
  by_cases empty : achievement.conditions = []
  · have cleared : achievement.powerOn.conditions = [] := by
      rw [Achievement.powerOn, Achievement.resetProgress, empty]
      rfl
    exact Achievement.apply_all_without_conditions cleared _ record
  · have noneBefore :
        before.filter (fun entry => engine.matchId? entry.1 = some achievement.id) = [] := by
      rw [List.filter_eq_nil_iff]
      intro entry inBefore matched
      rcases harmless entry.1 (inIds entry (by simp [inBefore])) (of_decide_eq_true matched) with
        same | precedes
      · exact String.lt_irrefl _ (same ▸ earlier entry inBefore)
      · exact empty precedes.2
    rw [noneBefore]
    rfl

/-- A record that shows wherever it is applied. -/
def loud : Progress where
  primed := true
  counters := [⟨0, true⟩]

/-- Records of which only one is silent. -/
def loudBut (own : String) (sorted : ids.Pairwise (· < ·)) : IdMap Progress :=
  .ofIds ids sorted fun id => if id = own then {} else loud

theorem record_of_loud_but {own : String} (sorted : ids.Pairwise (· < ·))
    {entry : String × Progress} (member : entry ∈ (loudBut own sorted).entries) :
    entry.2 = if entry.1 = own then {} else loud := by
  obtain ⟨id, _, rfl⟩ := List.mem_map.mp member
  rfl

theorem mem_loud_but {own key : String} (sorted : ids.Pairwise (· < ·)) (other : key ≠ own)
    (member : key ∈ ids) : (key, loud) ∈ (loudBut own sorted).entries :=
  List.mem_map.mpr ⟨key, member, congrArg (Prod.mk key) (if_neg other)⟩

/-- A loud record that leaves no trace was applied to an achievement without conditions. -/
theorem no_conditions_of_unheard {records : List (String × Progress)}
    (unheard : achievement.powerOn.applyAll records = achievement.powerOn.applyProgress {})
    (kinds : ∀ stored ∈ records, stored.2 = {} ∨ stored.2 = loud) {key : String}
    (heard : (key, loud) ∈ records) : achievement.conditions = [] := by
  by_contra filled
  have met : ∀ stored ∈ records, ∀ counter ∈ stored.2.counters, counter.met = true := by
    intro stored member counter counted
    rcases kinds stored member with silent | speaks
    · rw [silent] at counted
      cases counted
    · rw [speaks] at counted
      rw [List.mem_singleton.mp counted]
  have quiet : (achievement.powerOn.applyProgress {}).startsMet = false := by
    rw [← achievement.not_met_at_power_on]
    simp only [Achievement.startsMet, Achievement.applyProgress, Achievement.restore_no_counters]
  have powered : achievement.powerOn.conditions ≠ [] := by
    simpa [Achievement.powerOn, Achievement.resetProgress] using filled
  have begins := Achievement.starts_met_of_loud met heard (List.cons_ne_nil _ _) powered
  rw [unheard, quiet] at begins
  cases begins

/-- Loud records that leave no trace were not the last ones. -/
theorem none_after_of_unheard {before after : List (String × Progress)}
    (unheard : achievement.powerOn.applyAll (before ++ after) =
      achievement.powerOn.applyProgress {})
    (speak : ∀ stored ∈ after, stored.2 = loud) : after = [] := by
  by_contra nonempty
  have primed := Achievement.primed_of_apply_all nonempty
    (fun stored member => by rw [speak stored member]; rfl) (achievement.powerOn.applyAll before)
  rw [← Achievement.apply_all_append, unheard] at primed
  cases primed

theorem harmless_of_own_record_wins (loaded : engine.Loaded)
    (member : achievement ∈ engine.achievements) (sorted : ids.Pairwise (· < ·))
    (own : achievement.id ∈ ids) (wins : engine.OwnRecordWins achievement ids) :
    engine.Harmless achievement ids := by
  intro key inIds matched
  by_cases same : key = achievement.id
  · exact .inl same
  let state : SavedState := ⟨SavedState.currentSchema, [], loudBut achievement.id sorted⟩
  let refers := fun entry : String × Progress =>
    decide (engine.matchId? entry.1 = some achievement.id)
  have stored : state.progress.find? achievement.id = some {} :=
    (IdMap.find_of_ids sorted _ own).trans (congrArg some (if_pos rfl))
  have unheard := wins state rfl (IdMap.ids_of_ids sorted _) {} stored (.readable ⟨#[]⟩)
  rw [find_of_restore_progress loaded rfl _ member, Option.some.injEq] at unheard
  have heard : (key, loud) ∈ state.progress.entries.filter refers :=
    List.mem_filter.mpr ⟨mem_loud_but sorted same inIds, decide_eq_true matched⟩
  have empty : achievement.conditions = [] := by
    apply no_conditions_of_unheard unheard _ heard
    intro entry inFiltered
    rw [record_of_loud_but sorted (List.mem_of_mem_filter inFiltered)]
    split
    · exact .inl rfl
    · exact .inr rfl
  have notLater : ¬ achievement.id < key := by
    intro follows
    obtain ⟨before, after, split, earlier, later⟩ := IdMap.entries_around stored
    have speak : ∀ entry ∈ after.filter refers, entry.2 = loud := by
      intro entry inFiltered
      have inAfter := List.mem_of_mem_filter inFiltered
      have inEntries : entry ∈ state.progress.entries := by simp [split, inAfter]
      rw [record_of_loud_but sorted inEntries,
        if_neg fun own => String.lt_irrefl _ (own ▸ later entry inAfter)]
    have known : refers (achievement.id, {}) = true :=
      decide_eq_true (match_id_of_known (List.mem_map_of_mem member))
    rw [split, List.filter_append, List.filter_cons, if_pos known, ← List.singleton_append,
      ← List.append_assoc] at unheard heard
    rw [none_after_of_unheard unheard speak, List.append_nil] at heard
    rcases List.mem_append.mp heard with inBefore | isOwn
    · exact String.lt_asymm follows (earlier _ (List.mem_of_mem_filter inBefore))
    · exact same (congrArg Prod.fst (List.mem_singleton.mp isOwn))
  have precedes : key < achievement.id := by
    by_contra notEarlier
    exact same (String.le_antisymm notLater notEarlier)
  exact .inr ⟨precedes, empty⟩

/-- The record of an id itself is what counts exactly if every other id that refers to its achievement
comes earlier, and the achievement has no conditions whose counters could be left over. -/
theorem exact_match_wins_iff (framesPerSecond : UInt32) (start : RamView)
    (operations : List Operation) {achievement : Achievement} {ids : List String}
    (member : achievement ∈ ((create framesPerSecond start).run operations).achievements)
    (sorted : ids.Pairwise (· < ·)) (own : achievement.id ∈ ids) :
    let engine := (create framesPerSecond start).run operations
    engine.OwnRecordWins achievement ids ↔ engine.Harmless achievement ids := by
  intro engine
  have loaded : engine.Loaded := (sound_run (sound_create framesPerSecond start) operations).toLoaded
  exact ⟨harmless_of_own_record_wins loaded member sorted own, own_record_wins loaded member⟩

/-- Two achievements whose ids differ by case. A third spelling refers to the first of them. -/
def spellings : List Operation :=
  [.load "Boss" "0xH1=1(3)", .load "boss" "0xH2=1(3)"]

theorem other_spellings_go_elsewhere :
    let engine := (create 60 (.readable ⟨#[0, 0, 0]⟩)).run spellings
    let boss := Achievement.fresh "boss" "0xH2=1(3)" (Formula.read 60 "0xH2=1(3)")
    let ids := ["BOSS", "boss", "ghost"]
    boss ∈ engine.achievements ∧ ids.Pairwise (· < ·) ∧ boss.id ∈ ids ∧
      engine.matchId? "BOSS" = some "Boss" ∧ engine.OwnRecordWins boss ids := by
  intro engine boss ids
  have member : boss ∈ engine.achievements := List.mem_cons_of_mem _ List.mem_cons_self
  have sorted : ids.Pairwise (· < ·) := by decide
  have own : boss.id ∈ ids := by decide
  have elsewhere : engine.matchId? "BOSS" = some "Boss" := by decide
  have harmless : engine.Harmless boss ids := by
    have only : ∀ key ∈ ids, engine.matchId? key = some "boss" → key = "boss" := by decide
    exact fun key inIds matched => .inl (only key inIds matched)
  exact ⟨member, sorted, own, elsewhere,
    (exact_match_wins_iff 60 _ spellings member sorted own).mpr harmless⟩

/-- The record of the id itself is applied first, and then replaced by one of another spelling. -/
theorem stray_record_wins :
    let engine := (create 60 (.readable ⟨#[0, 0]⟩)).run [.load "BOSS" "0xH1=1(3)"]
    let progress := IdMap.empty.insertAll
      [("BOSS", { counters := [⟨1, false⟩] }), ("boss", { counters := [⟨2, false⟩] })]
    let restored := engine.restore ⟨SavedState.currentSchema, [], progress⟩ (.readable ⟨#[0, 0]⟩)
    ((progress.find? "BOSS").map fun record => record.counters) = some [⟨1, false⟩] ∧
      (restored.find? "BOSS").map (fun boss => boss.conditions.map (·.counter)) =
        some [⟨2, false⟩] := by
  decide +kernel

end Engine

end Achievements
