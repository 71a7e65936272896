import Achievements.Toml.Document

/-!
# Achievement sets

Achievements that are given together in one file, each with an id of its own.
-/

set_option autoImplicit false

namespace Achievements

/-- One achievement of a set. -/
structure SetEntry where
  id : String
  title : String
  formula : String
  deriving DecidableEq, Repr, Inhabited

/-- Achievements that are given together, in order. -/
abbrev AchievementSet := List SetEntry

/-- Why a text is not an achievement set. -/
inductive SetError where
  | malformed
  | emptyId
  | duplicateId (id : String)
  deriving DecidableEq, Repr

def SetError.message : SetError → String
  | .malformed => "Failed to parse achievement set"
  | .emptyId => "Achievement with empty id"
  | .duplicateId id => s!"Duplicate achievement id: {id}"

namespace SetEntry

def ofToml? (value : Toml.Value) : Option SetEntry := do
  let [id, title, formula] ← value.fields? ["id", "title", "formula"] | none
  let id ← Toml.Value.required Toml.Value.asText? id
  let title ← Toml.Value.optional "" Toml.Value.asText? title
  let formula ← Toml.Value.required Toml.Value.asText? formula
  some ⟨id, title, formula⟩

end SetEntry

namespace AchievementSet

/-- The entries that a file describes. Nothing is asked of their ids. -/
def ofToml? (value : Toml.Value) : Option AchievementSet := do
  let [entries] ← value.fields? ["achievements"] | none
  Toml.Value.optional [] (Toml.Value.asList? SetEntry.ofToml?) entries

/-- The first fault among the ids of entries, given the ids that came before them. -/
def idFault? : List String → AchievementSet → Option SetError
  | _, [] => none
  | seen, entry :: rest =>
      if entry.id.isEmpty then some .emptyId
      else if seen.contains entry.id then some (.duplicateId entry.id)
      else idFault? (entry.id :: seen) rest

/-- The achievement set in the text of a file. -/
def ofText (text : String) : Except SetError AchievementSet :=
  match (Toml.parse? text).bind ofToml? with
  | none => .error .malformed
  | some entries =>
      match idFault? [] entries with
      | some fault => .error fault
      | none => .ok entries

/-- A set of one achievement without a title. -/
def single (id formula : String) : AchievementSet :=
  [⟨id, "", formula⟩]

end AchievementSet

end Achievements
