import Achievements.Proofs.Engine.Stored
import Achievements.Proofs.Json.Finiteness

/-!
# Texts of saved states settle

A text that is read as a saved state may leave fields out, have others besides, and name its fields in
any order or not at all. Once the state is written its text has one form. The doubles in it are finite
since they were read, so the text is read again in any case, and it is read as the state if each of
them is read as itself.
-/

set_option autoImplicit false

namespace Achievements

open Ieee

theorem zero_is_finite : isFinite 0 = true := by
  decide

namespace StoredNumber

theorem finite_of_read {document : Json} (bounded : document.Bounded) {stored : StoredNumber}
    (read : ofJson? document = some stored) : isFinite stored.real = true := by
  obtain ⟨fields, found, read⟩ := Option.bind_eq_some_iff.mp read
  have each := Json.bounded_of_fields_of bounded found
  split at read
  · rename_i kindField integerField realField
    obtain ⟨kind, _, read⟩ := Option.bind_eq_some_iff.mp read
    obtain ⟨integer, _, read⟩ := Option.bind_eq_some_iff.mp read
    obtain ⟨real, readReal, read⟩ := Option.bind_eq_some_iff.mp read
    cases read
    apply Json.of_optional (isFinite · = true) readReal zero_is_finite
    exact fun content present value => Json.finite_of_as_real (each _ (by simp) content present)
  · cases read

end StoredNumber

namespace Progress

theorem finite_of_remembered {document : Json} (bounded : document.Bounded)
    {remembered : Option StoredNumber} (read : rememberedOfJson? document = some remembered) :
    ∀ stored ∈ remembered, isFinite stored.real = true := by
  unfold rememberedOfJson? at read
  split at read
  · cases read
    rintro stored ⟨⟩
  · obtain ⟨stored, readStored, rfl⟩ := Option.map_eq_some_iff.mp read
    rintro other ⟨⟩
    exact StoredNumber.finite_of_read bounded readStored

theorem finite_of_read {document : Json} (bounded : document.Bounded) {progress : Progress}
    (read : ofJson? document = some progress) :
    ∀ real ∈ progress.reals, isFinite real = true := by
  obtain ⟨fields, found, read⟩ := Option.bind_eq_some_iff.mp read
  have each := Json.bounded_of_fields_of bounded found
  split at read
  · rename_i primedField rememberedField countersField currentField targetField activeField percentField
    obtain ⟨primed, _, read⟩ := Option.bind_eq_some_iff.mp read
    obtain ⟨remembered, readRemembered, read⟩ := Option.bind_eq_some_iff.mp read
    obtain ⟨counters, _, read⟩ := Option.bind_eq_some_iff.mp read
    obtain ⟨current, readCurrent, read⟩ := Option.bind_eq_some_iff.mp read
    obtain ⟨target, readTarget, read⟩ := Option.bind_eq_some_iff.mp read
    obtain ⟨active, _, read⟩ := Option.bind_eq_some_iff.mp read
    obtain ⟨isPercent, _, read⟩ := Option.bind_eq_some_iff.mp read
    cases read
    have finiteReal {field : Option Json} {real : Float}
        (fieldBounded : ∀ content ∈ field, content.Bounded)
        (readReal : Json.optional 0 Json.asReal? field = some real) : isFinite real = true :=
      Json.of_optional (isFinite · = true) readReal zero_is_finite
        fun content present value => Json.finite_of_as_real (fieldBounded content present)
    have finiteRemembered : ∀ stored ∈ remembered, isFinite stored.real = true :=
      Json.of_optional (fun remembered => ∀ stored ∈ remembered, isFinite stored.real = true)
        readRemembered (by rintro stored ⟨⟩)
        fun content present value => finite_of_remembered (each _ (by simp) content present)
    intro real member
    rw [reals] at member
    rcases List.mem_append.mp member with inRemembered | inMeasure
    · obtain ⟨stored, isStored, rfl⟩ := List.mem_map.mp inRemembered
      exact finiteRemembered stored (Option.mem_toList.mp isStored)
    · rcases List.mem_pair.mp inMeasure with rfl | rfl
      · exact finiteReal (each currentField (by simp)) readCurrent
      · exact finiteReal (each targetField (by simp)) readTarget
  · cases read

end Progress

namespace SavedState

theorem finite_of_progress {document : Json} (bounded : document.Bounded) {progress : IdMap Progress}
    (read : IdMap.ofJson? Progress.ofJson? document = some progress) :
    ∀ entry ∈ progress.entries, ∀ real ∈ entry.2.reals, isFinite real = true := by
  cases bounded with
  | object each =>
      obtain ⟨records, reads, inserted⟩ := Option.bind_eq_some_iff.mp read
      cases inserted
      intro entry member
      rcases IdMap.mem_of_insert_all .empty records member with none | given
      · cases none
      · obtain ⟨field, inFields, readField⟩ := Json.exists_of_map_m reads given
        obtain ⟨record, readRecord, rfl⟩ := Option.map_eq_some_iff.mp readField
        exact Progress.finite_of_read (each field inFields) readRecord
  | _ => cases read

theorem finite_of_read {text : String} {state : SavedState} (read : ofText? text = some state) :
    ∀ real ∈ state.reals, isFinite real = true := by
  obtain ⟨document, parsed, read⟩ := Option.bind_eq_some_iff.mp read
  have bounded := Json.bounded_of_parse parsed
  obtain ⟨fields, found, read⟩ := Option.bind_eq_some_iff.mp read
  have each := Json.bounded_of_fields_of bounded found
  rw [forall_reals_iff]
  split at read
  · rename_i schemaField completedField progressField
    obtain ⟨schema, _, read⟩ := Option.bind_eq_some_iff.mp read
    obtain ⟨completed, _, read⟩ := Option.bind_eq_some_iff.mp read
    obtain ⟨progress, readProgress, read⟩ := Option.bind_eq_some_iff.mp read
    cases read
    exact Json.of_optional
      (fun progress : IdMap Progress =>
        ∀ entry ∈ progress.entries, ∀ real ∈ entry.2.reals, isFinite real = true)
      readProgress (fun entry member => by cases member)
      fun content present value => finite_of_progress (each _ (by simp) content present)
  · cases read

/-- The text of a state that was read is read again. Given that its doubles, all of which are finite,
are read as themselves, it is read as that state, whose text is the same again. -/
theorem read_state_is_stable {text : String} {state : SavedState} (read : ofText? text = some state)
    (printed : ∀ real ∈ state.reals, isFinite real = true → Json.Lasting real) :
    (∀ real ∈ state.reals, isFinite real = true) ∧ ofText? state.toText = some state ∧
      ∀ again, ofText? state.toText = some again → again.toText = state.toText := by
  have finite := finite_of_read read
  have same : ofText? state.toText = some state := by
    rw [of_text_to_text, reread_eq_some_iff]
    exact fun real member => printed real member (finite real member)
  refine ⟨finite, same, fun again readAgain => ?_⟩
  rw [same, Option.some.injEq] at readAgain
  rw [readAgain]

/-- A text with its fields in another order, two records of one id of which the first is replaced by
an array of fields, and a field that is not known, with a number that is too large. -/
def loose : String :=
  "\x7b\"progress\":\x7b\"b\":\x7b\x7d,\"b\":[true,\x7b\"f64\":2,\"kind\":\"float\"\x7d]," ++
    "\"a\":\x7b\"measuredCurrent\":-7.25,\"later\":[1e999]\x7d\x7d,\"completedIds\":[\"z\"]\x7d"

theorem loose_state_is_stable :
    ∃ state, ofText? loose = some state ∧ state.completed = ["z"] ∧ state.progress.ids = ["a", "b"] ∧
      ofText? state.toText = some state := by
  have checked : (ofText? loose).any (fun state =>
      state.completed == ["z"] && state.progress.ids == ["a", "b"] &&
        state.reals.all fun real => decide ((Json.Numeral.ofReal real).decimal.significand < 2 ^ 53 ∧
          (Json.Numeral.ofReal real).decimal.exponent.natAbs ≤ 22)) = true := by
    decide +kernel
  cases read : ofText? loose with
  | none =>
      rw [read] at checked
      cases checked
  | some state =>
      rw [read, Option.any_some] at checked
      simp only [Bool.and_eq_true, beq_iff_eq, List.all_eq_true, decide_eq_true_eq] at checked
      obtain ⟨⟨completed, ids⟩, short⟩ := checked
      have printed : ∀ real ∈ state.reals, isFinite real = true → Json.Lasting real :=
        fun real member finite =>
          Json.lasting_of_short finite ⟨(short real member).1, (short real member).2⟩
      exact ⟨state, rfl, completed, ids, (read_state_is_stable read printed).2.1⟩

end SavedState

end Achievements
