import Achievements.Engine.IdMap
import Mathlib.Data.List.Nodup

/-!
# Records that are inserted

What is found in a map after records were inserted into it: of records of one id the last one. Since the
entries are in order, a map is determined by what is found in it, and records that are inserted in their
order are the entries.
-/

set_option autoImplicit false

namespace Achievements.IdMap

variable {α : Type} {id key : String} {record : α}

theorem lookup_cons_eq (key other : String) (old : α) (rest : List (String × α)) :
    ((other, old) :: rest).lookup key = if key = other then some old else rest.lookup key := by
  rw [List.lookup_cons]
  by_cases same : key = other
  · simp [same]
  · simp [same, beq_false_of_ne same]

theorem lookup_insert_entry (id key : String) (record : α) (entries : List (String × α)) :
    (insertEntry id record entries).lookup key =
      if key = id then some record else entries.lookup key := by
  induction entries with
  | nil => exact lookup_cons_eq key id record []
  | cons head rest ih =>
      obtain ⟨other, old⟩ := head
      rw [insertEntry, lookup_cons_eq]
      split
      · rw [lookup_cons_eq, lookup_cons_eq]
      split
      · rename_i _ less
        have different : other ≠ id := fun same => String.lt_irrefl id (same ▸ less)
        rw [lookup_cons_eq, ih]
        by_cases here : key = other
        · subst here
          rw [if_pos rfl, if_pos rfl, if_neg different]
        · rw [if_neg here, if_neg here]
      · rename_i notLess notGreater
        have same : id = other := String.le_antisymm notGreater notLess
        rw [lookup_cons_eq, same]
        by_cases here : key = other
        · rw [if_pos here, if_pos here]
        · rw [if_neg here, if_neg here, if_neg here]

theorem find_insert (map : IdMap α) (id key : String) (record : α) :
    (map.insert id record).find? key = if key = id then some record else map.find? key :=
  lookup_insert_entry id key record map.entries

theorem find_of_not_inserted (map : IdMap α) (records : List (String × α))
    (absent : key ∉ records.map Prod.fst) : (map.insertAll records).find? key = map.find? key := by
  induction records generalizing map with
  | nil => rfl
  | cons head rest ih =>
      rw [List.map_cons, List.mem_cons, not_or] at absent
      have later := ih (map.insert head.1 head.2) absent.2
      rw [find_insert, if_neg absent.1] at later
      exact later

/-- Of records under different ids, every one is found after they were inserted. -/
theorem find_of_inserted (map : IdMap α) (records : List (String × α))
    (distinct : (records.map Prod.fst).Nodup) (member : (key, record) ∈ records) :
    (map.insertAll records).find? key = some record := by
  induction records generalizing map with
  | nil => cases member
  | cons head rest ih =>
      rw [List.map_cons, List.nodup_cons] at distinct
      rcases List.mem_cons.mp member with rfl | later
      · have kept := find_of_not_inserted (map.insert key record) rest distinct.1
        rw [find_insert, if_pos rfl] at kept
        exact kept
      · exact ih (map.insert head.1 head.2) distinct.2 later

theorem mem_of_insert_all (map : IdMap α) (records : List (String × α)) {entry : String × α}
    (member : entry ∈ (map.insertAll records).entries) :
    entry ∈ map.entries ∨ entry ∈ records := by
  induction records generalizing map with
  | nil => exact .inl member
  | cons head rest ih =>
      rcases ih (map.insert head.1 head.2) member with before | later
      · rcases mem_insertEntry before with rfl | old
        · exact .inr List.mem_cons_self
        · exact .inl old
      · exact .inr (List.mem_cons_of_mem _ later)

theorem distinct_ids (map : IdMap α) : map.ids.Nodup := by
  rw [ids, List.Nodup, List.pairwise_map]
  refine map.sorted.imp fun {first second} less same => ?_
  rw [same] at less
  exact String.lt_irrefl _ less

theorem insert_entry_last {id : String} {entries : List (String × α)}
    (below : ∀ entry ∈ entries, entry.1 < id) (record : α) :
    insertEntry id record entries = entries ++ [(id, record)] := by
  induction entries with
  | nil => rfl
  | cons entry entries ih =>
      obtain ⟨first, others⟩ := List.forall_mem_cons.mp below
      rw [insertEntry, if_neg (String.lt_asymm first), if_pos first, ih others]
      rfl

theorem entries_of_insert_all (map : IdMap α) {records : List (String × α)}
    (sorted : (map.entries ++ records).Pairwise fun earlier later => earlier.1 < later.1) :
    (map.insertAll records).entries = map.entries ++ records := by
  induction records generalizing map with
  | nil => exact (List.append_nil _).symm
  | cons record records ih =>
      have below : ∀ entry ∈ map.entries, entry.1 < record.1 := fun entry member =>
        (List.pairwise_append.mp sorted).2.2 entry member record List.mem_cons_self
      have inserted : (map.insert record.1 record.2).entries = map.entries ++ [record] :=
        insert_entry_last below record.2
      have regrouped : map.entries ++ record :: records =
          (map.insert record.1 record.2).entries ++ records := by
        rw [inserted, List.append_assoc, List.singleton_append]
      rw [regrouped] at sorted ⊢
      exact ih _ sorted

theorem eq_of_entries {first second : IdMap α} (same : first.entries = second.entries) :
    first = second := by
  cases first
  cases second
  cases same
  rfl

theorem insert_all_sorted {records : List (String × α)}
    (sorted : records.Pairwise fun earlier later => earlier.1 < later.1) :
    empty.insertAll records = ⟨records, sorted⟩ :=
  eq_of_entries (entries_of_insert_all empty sorted)

/-! ## Maps of the same records -/

theorem mem_entries_iff {map : IdMap α} :
    (id, record) ∈ map.entries ↔ map.find? id = some record := by
  constructor
  · intro member
    have found := find_of_inserted empty map.entries map.distinct_ids member
    rwa [insert_all_sorted map.sorted] at found
  · intro found
    obtain ⟨before, after, split, _⟩ := List.lookup_eq_some_iff.mp found
    rw [split]
    exact List.mem_append_right _ List.mem_cons_self

theorem mem_ids_iff {map : IdMap α} : id ∈ map.ids ↔ (map.find? id).isSome = true := by
  rw [ids, Option.isSome_iff_exists]
  simp only [List.mem_map, Prod.exists, exists_and_right, exists_eq_right, mem_entries_iff]

/-- A map is determined by what is found in it. -/
theorem eq_of_find {first second : IdMap α} (same : ∀ id, first.find? id = second.find? id) :
    first = second := by
  have members : ∀ entry, entry ∈ first.entries ↔ entry ∈ second.entries := by
    intro entry
    rw [mem_entries_iff, mem_entries_iff, same]
  have nodup (map : IdMap α) : map.entries.Nodup := List.Nodup.of_map _ map.distinct_ids
  have permuted := (List.perm_ext_iff_of_nodup (nodup first) (nodup second)).mpr members
  apply eq_of_entries
  refine permuted.eq_of_pairwise ?_ first.sorted second.sorted
  intro earlier later _ _ before after
  exact absurd after (String.lt_asymm before)

/-- Of two records of one id the one that is added counts. -/
theorem find_of_added (map other : IdMap α) (id : String) :
    (map.insertAll other.entries).find? id = (other.find? id).or (map.find? id) := by
  cases found : other.find? id with
  | some record =>
      exact find_of_inserted map other.entries other.distinct_ids (mem_entries_iff.mpr found)
  | none =>
      apply find_of_not_inserted
      intro present
      have stored := mem_ids_iff.mp present
      rw [found] at stored
      cases stored

end Achievements.IdMap
