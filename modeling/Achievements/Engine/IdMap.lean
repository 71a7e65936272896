/-!
# Records by id

Records kept under the ids of achievements, in the order of the ids. Since the order is part of the
type, two maps with the same records are equal, and a document written from one has one form.
-/

set_option autoImplicit false

namespace Achievements

/-- Records under ids, at most one for each, in increasing order of the ids. -/
structure IdMap (α : Type) where
  entries : List (String × α)
  sorted : entries.Pairwise fun earlier later => earlier.1 < later.1

namespace IdMap

variable {α : Type}

/-- No records. -/
def empty : IdMap α :=
  ⟨[], List.Pairwise.nil⟩

instance : Inhabited (IdMap α) := ⟨empty⟩

/-- The entries with one more, which replaces any entry of the same id. -/
def insertEntry (id : String) (record : α) : List (String × α) → List (String × α)
  | [] => [(id, record)]
  | (key, old) :: rest =>
      if id < key then (id, record) :: (key, old) :: rest
      else if key < id then (key, old) :: insertEntry id record rest
      else (id, record) :: rest

theorem mem_insertEntry {id : String} {record : α} {entries : List (String × α)}
    {entry : String × α} (member : entry ∈ insertEntry id record entries) :
    entry = (id, record) ∨ entry ∈ entries := by
  induction entries with
  | nil => simpa [insertEntry] using member
  | cons head rest ih =>
      rw [insertEntry] at member
      split at member
      · simpa using member
      · split at member
        · rcases List.mem_cons.mp member with rfl | later
          · simp
          · rcases ih later with rfl | old
            · simp
            · simp [old]
        · rcases List.mem_cons.mp member with rfl | later
          · simp
          · simp [later]

theorem sorted_insertEntry (id : String) (record : α) {entries : List (String × α)}
    (sorted : entries.Pairwise fun earlier later => earlier.1 < later.1) :
    (insertEntry id record entries).Pairwise fun earlier later => earlier.1 < later.1 := by
  induction entries with
  | nil => simp [insertEntry]
  | cons head rest ih =>
      obtain ⟨key, old⟩ := head
      rw [List.pairwise_cons] at sorted
      obtain ⟨below, rest_sorted⟩ := sorted
      rw [insertEntry]
      split
      · rename_i less
        refine List.pairwise_cons.mpr ⟨?_, List.pairwise_cons.mpr ⟨below, rest_sorted⟩⟩
        intro entry member
        rcases List.mem_cons.mp member with rfl | later
        · exact less
        · exact String.lt_trans less (below entry later)
      · split
        · rename_i less
          refine List.pairwise_cons.mpr ⟨?_, ih rest_sorted⟩
          intro entry member
          rcases mem_insertEntry member with rfl | later
          · exact less
          · exact below entry later
        · rename_i not_less not_greater
          have same : id = key := String.le_antisymm not_greater not_less
          subst same
          exact List.pairwise_cons.mpr ⟨below, rest_sorted⟩

/-- The map with one more record, which replaces any record of the same id. -/
def insert (map : IdMap α) (id : String) (record : α) : IdMap α :=
  ⟨insertEntry id record map.entries, sorted_insertEntry id record map.sorted⟩

/-- The map with more records; of records of one id the last wins. -/
def insertAll (map : IdMap α) (records : List (String × α)) : IdMap α :=
  records.foldl (fun map (id, record) => map.insert id record) map

/-- The record of an id. -/
def find? (map : IdMap α) (id : String) : Option α :=
  map.entries.lookup id

/-- The ids that have records. -/
def ids (map : IdMap α) : List String :=
  map.entries.map Prod.fst

end IdMap

end Achievements
