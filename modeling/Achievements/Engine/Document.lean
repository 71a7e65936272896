import Achievements.Engine.SavedState
import Achievements.Formula.Document

/-!
# Saved states as documents

The written form of a saved state. Every field may be left out and then has its default; nothing
remembered is written as no field at all.
-/

set_option autoImplicit false

namespace Achievements

namespace NumberKind

def name : NumberKind → String
  | .int => "int"
  | .real => "float"

def ofName? : String → Option NumberKind
  | "int" => some .int
  | "float" => some .real
  | _ => none

end NumberKind

namespace StoredNumber

def toJson (stored : StoredNumber) : Json :=
  .object [("kind", .string stored.kind.name), ("i64", .integer stored.integer.toInt),
    ("f64", .real stored.real)]

def ofJson? (document : Json) : Option StoredNumber := do
  let [kind, integer, real] ← document.fields? ["kind", "i64", "f64"] | none
  let kind ← Json.optional .int
    (fun document => document.bareAlternative?.bind NumberKind.ofName?) kind
  let integer ← Json.optional 0 Json.asInt64? integer
  let real ← Json.optional 0 Json.asReal? real
  some ⟨kind, integer, real⟩

end StoredNumber

namespace Counter

def toJson (counter : Counter) : Json :=
  .object [("hits", .integer counter.hits.toNat), ("isMet", .bool counter.met)]

def ofJson? (document : Json) : Option Counter := do
  let [hits, met] ← document.fields? ["hits", "isMet"] | none
  let hits ← Json.optional 0 Json.asUInt32? hits
  let met ← Json.optional false Json.asBool? met
  some ⟨hits, met⟩

end Counter

namespace Progress

/-- A remembered value, where `null` stands for none. -/
def rememberedOfJson? : Json → Option (Option StoredNumber)
  | .null => some none
  | document => (StoredNumber.ofJson? document).map some

def toJson (progress : Progress) : Json :=
  let remembered := match progress.remembered with
    | some stored => [("remembered", stored.toJson)]
    | none => []
  .object (("primed", .bool progress.primed) :: remembered ++
    [("conditions", .array (progress.counters.map Counter.toJson)),
      ("measuredCurrent", .real progress.measure.current),
      ("measuredTarget", .real progress.measure.target),
      ("measuredActive", .bool progress.measure.active),
      ("measuredIsPercent", .bool progress.measure.isPercent)])

def ofJson? (document : Json) : Option Progress := do
  let [primed, remembered, counters, current, target, active, isPercent] ←
    document.fields? ["primed", "remembered", "conditions", "measuredCurrent", "measuredTarget",
      "measuredActive", "measuredIsPercent"] | none
  let primed ← Json.optional false Json.asBool? primed
  let remembered ← Json.optional none rememberedOfJson? remembered
  let counters ← Json.optional [] (Json.asList? Counter.ofJson?) counters
  let current ← Json.optional 0 Json.asReal? current
  let target ← Json.optional 0 Json.asReal? target
  let active ← Json.optional false Json.asBool? active
  let isPercent ← Json.optional false Json.asBool? isPercent
  some { primed, remembered, counters, measure := { current, target, isPercent, active } }

end Progress

namespace IdMap

variable {α : Type}

def toJson (write : α → Json) (map : IdMap α) : Json :=
  .object (map.entries.map fun (id, record) => (id, write record))

/-- The records of an object; of fields of one name the last wins, but all have to be readable. -/
def ofJson? (read : Json → Option α) : Json → Option (IdMap α)
  | .object fields => do
      let records ← fields.mapM fun (id, document) => (read document).map (id, ·)
      some (empty.insertAll records)
  | _ => none

end IdMap

namespace SavedState

def toJson (state : SavedState) : Json :=
  .object [("schemaVersion", .string state.schema),
    ("completedIds", .array (state.completed.map Json.string)),
    ("progress", state.progress.toJson Progress.toJson)]

def ofJson? (document : Json) : Option SavedState := do
  let [schema, completed, progress] ←
    document.fields? ["schemaVersion", "completedIds", "progress"] | none
  let schema ← Json.optional currentSchema Json.asString? schema
  let completed ← Json.optional [] (Json.asList? Json.asString?) completed
  let progress ← Json.optional .empty (IdMap.ofJson? Progress.ofJson?) progress
  some ⟨schema, completed, progress⟩

/-- The text of a saved state. -/
def toText (state : SavedState) : String :=
  state.toJson.pretty

/-- The saved state that a text describes. -/
def ofText? (text : String) : Option SavedState :=
  (Json.parse? text).bind ofJson?

end SavedState

end Achievements
