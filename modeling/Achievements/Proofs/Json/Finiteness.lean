import Achievements.Formula.Document
import Achievements.Json.Reader
import Achievements.Proofs.Decimal.Estimates
import Achievements.Proofs.Json.Fields

/-!
# Doubles in documents that are read

A number that is too large for a double has no value, and an integer is one of 64 bits, so whatever
is read as a double from a document that was read from a text is finite.
-/

set_option autoImplicit false

namespace Achievements.Json

open Ieee Decimal

/-- What is read as a double from any place in the document is finite. -/
inductive Bounded : Json → Prop
  | null : Bounded .null
  | bool (value : Bool) : Bounded (.bool value)
  | integer {value : Int} (finite : isFinite (doubleOfInt value) = true) : Bounded (.integer value)
  | real {value : Float} (finite : isFinite value = true) : Bounded (.real value)
  | string (value : String) : Bounded (.string value)
  | array {items : List Json} (bounded : ∀ item ∈ items, Bounded item) : Bounded (.array items)
  | object {fields : List (String × Json)} (bounded : ∀ field ∈ fields, Bounded field.2) :
      Bounded (.object fields)
  | unreadable : Bounded .unreadable

/-! ## Numbers -/

theorem bounded_of_real (value : Float) : Bounded (ofReal value) := by
  unfold ofReal
  split
  · rename_i finite
    exact .real finite
  · exact .unreadable

theorem finite_of_int {value : Int} (small : value.natAbs ≤ Text.limit64) :
    isFinite (doubleOfInt value) = true := by
  apply finite_of_ratio
  refine lt_of_le_of_lt (Format.double.nearest_le_nearest Nat.one_pos Nat.one_pos ?_) top_start_finite
  rw [Nat.cast_one, div_one, div_one]
  exact_mod_cast small

theorem bounded_of_integer (negative : Bool) (digits : List Char) :
    Bounded (ofInteger negative digits) := by
  rw [ofInteger]
  split
  · rename_i accepted
    simp only [Bool.and_eq_true, decide_eq_true_eq] at accepted
    exact .integer (finite_of_int (by rw [Int.natAbs_natCast]; exact accepted.2))
  · split
    · rename_i accepted
      simp only [Bool.and_eq_true, decide_eq_true_eq] at accepted
      have small : Text.limit63 + 1 ≤ Text.limit64 := by decide
      exact .integer (finite_of_int (by rw [Int.natAbs_neg, Int.natAbs_natCast]; omega))
    · exact bounded_of_real _

theorem bounded_of_unsigned {negative : Bool} {text rest : List Char} {document : Json}
    (read : readUnsigned? negative text = some (document, rest)) : Bounded document := by
  rw [readUnsigned?] at read
  split at read
  · cases read
  · split at read
    · cases read
    · split at read
      · cases read
      · split at read
        · cases read
          exact bounded_of_integer _ _
        · cases read
          exact bounded_of_real _

theorem bounded_of_number {text rest : List Char} {document : Json}
    (read : readNumber? text = some (document, rest)) : Bounded document := by
  unfold readNumber? at read
  split at read <;> exact bounded_of_unsigned read

/-! ## Documents -/

theorem bounded_of_prepended {name : Option String} {value : Json}
    {others : Option (List (String × Json))} {fields : List (String × Json)}
    (prepended : prependField name value others = some fields) (bounded : Bounded value)
    (later : ∀ rest, others = some rest → ∀ field ∈ rest, Bounded field.2) :
    ∀ field ∈ fields, Bounded field.2 := by
  cases others with
  | none => cases prepended
  | some rest =>
      obtain ⟨name, _, rfl⟩ := Option.map_eq_some_iff.mp prepended
      exact List.forall_mem_cons.mpr ⟨bounded, later rest rfl⟩

/-- The statement about all three readers of one depth. -/
structure BoundedReads (fuel : Nat) : Prop where
  value {text rest : List Char} {document : Json}
    (read : readValue fuel text = some (document, rest)) : Bounded document
  items {text rest : List Char} {items : List Json}
    (read : readItems fuel text = some (items, rest)) : ∀ item ∈ items, Bounded item
  fields {text rest : List Char} {fields : List (String × Json)}
    (read : readFields fuel text = some (some fields, rest)) : ∀ field ∈ fields, Bounded field.2

variable {fuel : Nat} (shallower : BoundedReads fuel)

include shallower

theorem bounded_of_value {text rest : List Char} {document : Json}
    (read : readValue (fuel + 1) text = some (document, rest)) : Bounded document := by
  rw [readValue] at read
  split at read
  · cases read
    exact .null
  · cases read
    exact .bool true
  · cases read
    exact .bool false
  · split at read
    · cases read
      exact .string _
    · cases read
      exact .unreadable
    · cases read
  · split at read
    · cases read
      exact .array fun item member => by cases member
    · split at read
      · rename_i items
        cases read
        exact .array (shallower.items items)
      · cases read
  · split at read
    · cases read
      exact .object fun field member => by cases member
    · split at read
      · rename_i fields _ items
        cases read
        cases fields with
        | none => exact .unreadable
        | some fields => exact .object (shallower.fields items)
      · cases read
  · exact bounded_of_number read

theorem bounded_of_items {text rest : List Char} {items : List Json}
    (read : readItems (fuel + 1) text = some (items, rest)) : ∀ item ∈ items, Bounded item := by
  rw [readItems] at read
  split at read
  · cases read
  · rename_i first
    have bounded := shallower.value first
    split at read
    · cases read
      exact List.forall_mem_singleton.mpr bounded
    · split at read
      · rename_i others
        cases read
        exact List.forall_mem_cons.mpr ⟨bounded, shallower.items others⟩
      · cases read
    · cases read

theorem bounded_of_fields {text rest : List Char} {fields : List (String × Json)}
    (read : readFields (fuel + 1) text = some (some fields, rest)) :
    ∀ field ∈ fields, Bounded field.2 := by
  rw [readFields] at read
  split at read
  · split at read
    · cases read
    · split at read
      · split at read
        · cases read
        · rename_i first
          have bounded := shallower.value first
          split at read
          · rw [Option.some.injEq, Prod.mk.injEq] at read
            apply bounded_of_prepended read.1 bounded
            rintro rest ⟨⟩ field member
            cases member
          · split at read
            · rename_i others
              rw [Option.some.injEq, Prod.mk.injEq] at read
              apply bounded_of_prepended read.1 bounded
              rintro rest rfl
              exact shallower.fields others
            · cases read
          · cases read
      · cases read
  · cases read

omit shallower

theorem bounded_reads (fuel : Nat) : BoundedReads fuel := by
  induction fuel with
  | zero =>
      constructor
      · intro text rest document read
        cases read
      · intro text rest items read
        cases read
      · intro text rest fields read
        cases read
  | succ fuel ih =>
      exact ⟨bounded_of_value ih, bounded_of_items ih, bounded_of_fields ih⟩

theorem bounded_of_parse {text : String} {document : Json} (parsed : parse? text = some document) :
    Bounded document := by
  rw [parse?] at parsed
  split at parsed
  · rename_i rest read
    split at parsed
    · cases parsed
      exact (bounded_reads _).value read
    · cases parsed
  · cases parsed

/-! ## What is asked of a document -/

variable {document : Json}

theorem finite_of_as_real (bounded : Bounded document) {value : Float}
    (read : document.asReal? = some value) : isFinite value = true := by
  cases bounded with
  | integer finite =>
      cases read
      exact finite
  | real finite =>
      cases read
      exact finite
  | _ => cases read

theorem bounded_of_fields_of {names : List String} {fields : List (Option Json)}
    (bounded : Bounded document) (found : document.fields? names = some fields) :
    ∀ field ∈ fields, ∀ content ∈ field, Bounded content := by
  cases bounded with
  | object each =>
      rename_i given
      rw [fields?] at found
      split at found
      · cases found
        intro field member content present
        obtain ⟨name, _, rfl⟩ := List.mem_map.mp member
        obtain ⟨before, after, split, _⟩ := List.lookup_eq_some_iff.mp present
        exact each (name, content) (by rw [split]; simp)
      · cases found
  | array each =>
      rw [fields?] at found
      split at found
      · cases found
        intro field member content present
        obtain ⟨place, _, rfl⟩ := List.mem_map.mp member
        exact each content (List.mem_of_getElem? present)
      · cases found
  | _ => cases found

theorem exists_of_map_m {α β : Type} {read : α → Option β} {items : List α} {values : List β}
    (reads : items.mapM read = some values) {value : β} (member : value ∈ values) :
    ∃ item ∈ items, read item = some value := by
  have related := map_m_eq_some_iff.mp reads
  clear reads
  induction related with
  | nil => cases member
  | cons first _ ih =>
      rcases List.mem_cons.mp member with rfl | later
      · exact ⟨_, List.mem_cons_self, first⟩
      · obtain ⟨item, inItems, readItem⟩ := ih later
        exact ⟨item, List.mem_cons_of_mem _ inItems, readItem⟩

/-- What a reader that has a default makes of a field. -/
theorem of_optional {α : Type} (property : α → Prop) {default : α} {read : Json → Option α}
    {field : Option Json} {value : α} (found : optional default read field = some value)
    (usual : property default)
    (given : ∀ content ∈ field, ∀ value, read content = some value → property value) :
    property value := by
  cases field with
  | none =>
      cases found
      exact usual
  | some content => exact given content rfl value found

end Achievements.Json
