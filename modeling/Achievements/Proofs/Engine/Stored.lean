import Achievements.Engine.Basic
import Achievements.Engine.Document
import Achievements.Proofs.Engine.Records
import Achievements.Proofs.Json.Doubles

/-!
# Saved states are read back as far as their doubles are

Everything in the text of a saved state comes back but its doubles, which are written with the digits
that are enough for a reader that rounds correctly, and are read by one that does not. A double that is
not finite has no written form at all, and with one of those the whole text is refused.
-/

set_option autoImplicit false

namespace Achievements

/-! ## What is read from the text -/

namespace StoredNumber

/-- The value with its double read again. -/
def reread? (stored : StoredNumber) : Option StoredNumber :=
  (Json.rereadReal? stored.real).map fun real => { stored with real }

theorem of_json_reread (stored : StoredNumber) : ofJson? stored.toJson.reread = stored.reread? := by
  obtain ⟨kind, integer, real⟩ := stored
  have fields : (toJson ⟨kind, integer, real⟩).reread.fields? ["kind", "i64", "f64"] =
      some [some (.string kind.name), some (Json.integer integer.toInt).reread,
        some (Json.real real).reread] := rfl
  have named : ((Json.string kind.name).bareAlternative?.bind NumberKind.ofName?) = some kind := by
    cases kind <;> rfl
  rw [ofJson?, fields]
  simp only [Option.bind_eq_bind, Option.bind_some, Json.optional, named]
  rw [Json.reread, Json.value_of_int64, Json.as_int64_of_integer, reread?, Json.rereadReal?]
  cases (Json.real real).reread.asReal? <;> rfl

end StoredNumber

namespace Counter

theorem of_json_reread (counter : Counter) : ofJson? counter.toJson.reread = some counter := by
  have fields : counter.toJson.reread.fields? ["hits", "isMet"] =
      some [some (Json.integer counter.hits.toNat).reread, some (.bool counter.met)] := rfl
  rw [ofJson?, fields]
  simp only [Option.bind_eq_bind, Option.bind_some, Json.optional, Json.asBool?, Json.reread,
    Json.value_of_uint32, Json.as_uint32_of_integer]

theorem list_of_json_reread (counters : List Counter) :
    (Json.array (counters.map toJson)).reread.asList? ofJson? = some counters := by
  rw [Json.as_list_of_reread, map_m_eq_some_iff, List.forall₂_same]
  exact fun counter _ => counter.of_json_reread

end Counter

namespace Progress

/-- The progress with its doubles read again. -/
def reread? (progress : Progress) : Option Progress := do
  let remembered ← progress.remembered.mapM StoredNumber.reread?
  let current ← Json.rereadReal? progress.measure.current
  let target ← Json.rereadReal? progress.measure.target
  some { progress with remembered, measure := { progress.measure with current, target } }

theorem of_json_reread (progress : Progress) :
    ofJson? progress.toJson.reread = progress.reread? := by
  obtain ⟨primed, remembered, counters, current, target, isPercent, active⟩ := progress
  have counted := Counter.list_of_json_reread counters
  cases remembered with
  | none =>
      have fields : (toJson ⟨primed, none, counters, current, target, isPercent, active⟩).reread.fields?
          ["primed", "remembered", "conditions", "measuredCurrent", "measuredTarget",
            "measuredActive", "measuredIsPercent"] =
          some [some (.bool primed), none, some (Json.array (counters.map Counter.toJson)).reread,
            some (Json.real current).reread, some (Json.real target).reread, some (.bool active),
            some (.bool isPercent)] := rfl
      rw [ofJson?, fields]
      simp only [Option.bind_eq_bind, Option.bind_some, Json.optional, Json.asBool?, counted]
      rfl
  | some stored =>
      have fields : (toJson
          ⟨primed, some stored, counters, current, target, isPercent, active⟩).reread.fields?
          ["primed", "remembered", "conditions", "measuredCurrent", "measuredTarget",
            "measuredActive", "measuredIsPercent"] =
          some [some (.bool primed), some stored.toJson.reread,
            some (Json.array (counters.map Counter.toJson)).reread,
            some (Json.real current).reread, some (Json.real target).reread, some (.bool active),
            some (.bool isPercent)] := rfl
      have remembered : rememberedOfJson? stored.toJson.reread = stored.reread?.map some := by
        rw [← StoredNumber.of_json_reread]
        rfl
      rw [ofJson?, fields]
      simp only [Option.bind_eq_bind, Option.bind_some, Json.optional, Json.asBool?, counted,
        remembered]
      rw [reread?]
      cases again : stored.reread? <;> simp [again, Json.rereadReal?]

end Progress

namespace SavedState

def rereadRecord? (entry : String × Progress) : Option (String × Progress) :=
  entry.2.reread?.map fun progress => (entry.1, progress)

/-- Progress by id with its doubles read again. -/
def rereadProgress? (progress : IdMap Progress) : Option (IdMap Progress) :=
  (progress.entries.mapM rereadRecord?).map IdMap.empty.insertAll

/-- The state with its doubles read again. -/
def reread? (state : SavedState) : Option SavedState :=
  (rereadProgress? state.progress).map fun progress => { state with progress }

theorem completed_of_json_reread (completed : List String) :
    (Json.array (completed.map Json.string)).reread.asList? Json.asString? = some completed := by
  rw [Json.as_list_of_reread, map_m_eq_some_iff, List.forall₂_same]
  exact fun id _ => by rw [Json.reread, Json.asString?]

theorem progress_of_json_reread (progress : IdMap Progress) :
    IdMap.ofJson? Progress.ofJson? (progress.toJson Progress.toJson).reread =
      rereadProgress? progress := by
  have entries : (fun entry : String × Progress =>
      (Progress.ofJson? entry.2.toJson.reread).map fun progress => (entry.1, progress)) =
      rereadRecord? :=
    funext fun entry => by rw [Progress.of_json_reread, rereadRecord?]
  rw [IdMap.toJson, Json.reread, Json.reread_fields_eq, IdMap.ofJson?, List.mapM_map, List.mapM_map,
    rereadProgress?, ← entries, Option.map_eq_bind]
  rfl

theorem of_json_reread (state : SavedState) : ofJson? state.toJson.reread = state.reread? := by
  obtain ⟨schema, completed, progress⟩ := state
  have fields : (toJson ⟨schema, completed, progress⟩).reread.fields?
      ["schemaVersion", "completedIds", "progress"] =
      some [some (.string schema), some (Json.array (completed.map Json.string)).reread,
        some (progress.toJson Progress.toJson).reread] := rfl
  rw [ofJson?, fields]
  simp only [Option.bind_eq_bind, Option.bind_some, Json.optional, Json.asString?,
    completed_of_json_reread, progress_of_json_reread, reread?]
  cases rereadProgress? progress <;> rfl

/-- What is read from the text of a state: the state with its doubles read again. -/
theorem of_text_to_text (state : SavedState) : ofText? state.toText = state.reread? := by
  rw [ofText?, toText, Json.parse_pretty, Option.bind_some, of_json_reread]

end SavedState

/-! ## The doubles of a state -/

namespace StoredNumber

theorem reread_eq_some_iff (stored : StoredNumber) :
    stored.reread? = some stored ↔ Json.Lasting stored.real := by
  rw [reread?, Option.map_eq_some_iff]
  constructor
  · rintro ⟨real, read, same⟩
    rw [Json.Lasting, read, ← same]
  · intro lasting
    exact ⟨stored.real, lasting, rfl⟩

end StoredNumber

namespace Progress

/-- The doubles that are written for the progress of one achievement. -/
def reals (progress : Progress) : List Float :=
  progress.remembered.toList.map (·.real) ++ [progress.measure.current, progress.measure.target]

theorem reread_eq_some_iff (progress : Progress) :
    progress.reread? = some progress ↔ ∀ real ∈ progress.reals, Json.Lasting real := by
  obtain ⟨primed, remembered, counters, current, target, isPercent, active⟩ := progress
  have remembers : remembered.mapM StoredNumber.reread? = some remembered ↔
      ∀ stored ∈ remembered, Json.Lasting stored.real := by
    cases remembered with
    | none => simp
    | some stored => simp [← StoredNumber.reread_eq_some_iff]
  have split : (∀ real ∈ reals ⟨primed, remembered, counters, current, target, isPercent, active⟩,
      Json.Lasting real) ↔
      (∀ stored ∈ remembered, Json.Lasting stored.real) ∧ Json.Lasting current ∧
        Json.Lasting target := by
    simp [reals, or_imp, forall_and]
  rw [split, ← remembers, reread?]
  simp only [Option.bind_eq_bind, Option.bind_eq_some_iff, Option.some.injEq, Progress.mk.injEq,
    Measure.mk.injEq, true_and, and_true, Json.Lasting]
  constructor
  · rintro ⟨_, remembers, _, first, _, second, rfl, rfl, rfl⟩
    exact ⟨remembers, first, second⟩
  · rintro ⟨remembers, first, second⟩
    exact ⟨_, remembers, _, first, _, second, rfl, rfl, rfl⟩

theorem is_some_reread_iff (progress : Progress) :
    progress.reread?.isSome = true ↔
      ∀ real ∈ progress.reals, (Json.rereadReal? real).isSome = true := by
  obtain ⟨primed, remembered, counters, current, target, isPercent, active⟩ := progress
  have remembers : (remembered.mapM StoredNumber.reread?).isSome = true ↔
      ∀ stored ∈ remembered, (Json.rereadReal? stored.real).isSome = true := by
    cases remembered with
    | none => simp
    | some stored => simp [StoredNumber.reread?]
  have split : (∀ real ∈ reals ⟨primed, remembered, counters, current, target, isPercent, active⟩,
      (Json.rereadReal? real).isSome = true) ↔
      (∀ stored ∈ remembered, (Json.rereadReal? stored.real).isSome = true) ∧
        (Json.rereadReal? current).isSome = true ∧ (Json.rereadReal? target).isSome = true := by
    simp [reals, or_imp, forall_and]
  rw [split, ← remembers, reread?]
  simp only
  cases remembered.mapM StoredNumber.reread? <;> cases Json.rereadReal? current <;>
    cases Json.rereadReal? target <;> simp

end Progress

namespace SavedState

/-- The doubles that are written for a state. -/
def reals (state : SavedState) : List Float :=
  state.progress.entries.flatMap fun entry => entry.2.reals

theorem forall_reals_iff (state : SavedState) (property : Float → Prop) :
    (∀ real ∈ state.reals, property real) ↔
      ∀ entry ∈ state.progress.entries, ∀ real ∈ entry.2.reals, property real := by
  simp only [reals, List.mem_flatMap]
  exact ⟨fun all entry member real inEntry => all real ⟨entry, member, inEntry⟩,
    fun all real ⟨entry, member, inEntry⟩ => all entry member real inEntry⟩

theorem is_some_reread_iff (state : SavedState) :
    state.reread?.isSome = true ↔
      ∀ real ∈ state.reals, (Json.rereadReal? real).isSome = true := by
  rw [forall_reals_iff, reread?, Option.isSome_map, rereadProgress?, Option.isSome_map,
    is_some_of_map_m]
  have each (entry : String × Progress) : (rereadRecord? entry).isSome = true ↔
      ∀ real ∈ entry.2.reals, (Json.rereadReal? real).isSome = true := by
    rw [rereadRecord?, Option.isSome_map, Progress.is_some_reread_iff]
  exact forall₂_congr fun entry _ => each entry

theorem ids_of_reread {entries again : List (String × Progress)}
    (read : List.Forall₂ (fun entry read => rereadRecord? entry = some read) entries again) :
    again.map Prod.fst = entries.map Prod.fst := by
  induction read with
  | nil => rfl
  | cons first _ ih =>
      obtain ⟨progress, _, same⟩ := Option.map_eq_some_iff.mp first
      rw [List.map_cons, List.map_cons, ih, ← same]

theorem reread_eq_some_iff (state : SavedState) :
    state.reread? = some state ↔ ∀ real ∈ state.reals, Json.Lasting real := by
  have each (entry : String × Progress) : rereadRecord? entry = some entry ↔
      ∀ real ∈ entry.2.reals, Json.Lasting real := by
    rw [← Progress.reread_eq_some_iff, rereadRecord?, Option.map_eq_some_iff]
    constructor
    · rintro ⟨progress, read, same⟩
      rw [read, ← same]
    · intro read
      exact ⟨entry.2, read, rfl⟩
  have sorted := state.progress.sorted
  rw [forall_reals_iff, reread?, Option.map_eq_some_iff]
  constructor
  · rintro ⟨progress, read, same⟩
    obtain ⟨again, reads, inserted⟩ := Option.map_eq_some_iff.mp read
    have related := map_m_eq_some_iff.mp reads
    have againSorted : again.Pairwise fun earlier later => earlier.1 < later.1 := by
      rw [← List.pairwise_map (R := (· < ·)), ids_of_reread related, List.pairwise_map]
      exact sorted
    rw [IdMap.insert_all_sorted againSorted] at inserted
    have kept : state.progress.entries = again := by
      rw [← inserted] at same
      exact (congrArg (fun state => state.progress.entries) same).symm
    rw [← kept, List.forall₂_same] at related
    exact fun entry member => (each entry).mp (related entry member)
  · intro lasting
    refine ⟨state.progress, ?_, rfl⟩
    have reads : state.progress.entries.mapM rereadRecord? = some state.progress.entries := by
      rw [map_m_eq_some_iff, List.forall₂_same]
      exact fun entry member => (each entry).mpr (lasting entry member)
    rw [rereadProgress?, reads, Option.map_some, IdMap.insert_all_sorted sorted]

end SavedState

namespace Engine

/-- The text of a saved state is read at all exactly if its doubles are finite, and it is read as that
state exactly if each of them is read as itself. -/
theorem saved_text_is_read_back_iff (engine : Engine) :
    ((SavedState.ofText? engine.save.toText).isSome = true ↔
        ∀ real ∈ engine.save.reals, Ieee.isFinite real = true) ∧
      (SavedState.ofText? engine.save.toText = some engine.save ↔
        ∀ real ∈ engine.save.reals, Json.Lasting real) := by
  rw [SavedState.of_text_to_text]
  constructor
  · rw [SavedState.is_some_reread_iff]
    exact forall₂_congr fun real _ => Json.is_some_reread_real real
  · exact engine.save.reread_eq_some_iff

/-- Memory that holds a value that is not a number in its first four bytes. -/
def unordered : RamView :=
  .readable ⟨#[0, 0, 0xC0, 0x7F, 0]⟩

/-- A remembered value that is not a number makes the text of the state unreadable. -/
theorem state_with_nan_is_not_read :
    let engine := ((create 60 unordered).load "nan" "K:fF0_0xH4=1").frame unordered
    (SavedState.ofText? engine.1.save.toText).isSome = false := by
  intro engine
  rw [SavedState.of_text_to_text]
  decide +kernel

end Engine

end Achievements
