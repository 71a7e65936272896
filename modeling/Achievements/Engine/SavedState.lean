import Achievements.Engine.IdMap
import Achievements.Progress.Achievement

/-!
# Saved states

What is kept of an engine between sessions: the ids that are unlocked, and the progress of all
others. Progress is applied only as far as the stored conditions and those of the achievement go
together, and no further than the targets allow, since the formula may have changed meanwhile.
-/

set_option autoImplicit false

namespace Achievements

/-- Which of two stored values counts. -/
inductive NumberKind where
  | int
  | real
  deriving DecidableEq, Repr, Inhabited

/-- A remembered value as it is stored: both forms, and which of them counts. -/
structure StoredNumber where
  kind : NumberKind := .int
  integer : Int64 := 0
  real : Float := 0
  deriving Inhabited

namespace StoredNumber

def ofNumber : Number → StoredNumber
  | .int value => { kind := .int, integer := value }
  | .real value => { kind := .real, real := value }

def toNumber (stored : StoredNumber) : Number :=
  match stored.kind with
  | .int => .int stored.integer
  | .real => .real stored.real

theorem toNumber_ofNumber (value : Number) : (ofNumber value).toNumber = value := by
  cases value <;> rfl

end StoredNumber

/-- The progress of one achievement. -/
structure Progress where
  primed : Bool := false
  remembered : Option StoredNumber := none
  counters : List Counter := []
  measure : Measure := {}
  deriving Inhabited

/-- What is kept of an engine. -/
structure SavedState where
  schema : String
  completed : List String
  progress : IdMap Progress

namespace SavedState

/-- The schema of states that are written now. -/
def currentSchema : String := "achv-snap-v1"

/-- The state in which nothing has been achieved. -/
def empty : SavedState :=
  ⟨currentSchema, [], .empty⟩

instance : Inhabited SavedState := ⟨empty⟩

def isCurrentSchema (state : SavedState) : Bool :=
  state.schema == currentSchema

/-- The state with the completions and progress of another one added. -/
def merge (state other : SavedState) : SavedState :=
  { state with
    completed := state.completed ++ other.completed
    progress := state.progress.insertAll other.progress.entries }

end SavedState

namespace Achievement

/-- The progress of an achievement. -/
def progress (achievement : Achievement) : Progress :=
  { primed := achievement.primed
    remembered := achievement.remembered.map StoredNumber.ofNumber
    counters := achievement.conditions.map (·.counter)
    measure := achievement.measure }

/-- A condition with a stored counter, held to the condition's own target. -/
def restoreCounter (condition : Condition) (stored : Counter) : Condition :=
  let target := condition.clause.target
  let hits := if 0 < target then min stored.hits target else stored.hits
  { condition with counter := ⟨hits, stored.met⟩ }

/-- Conditions with stored counters, as far as both lists go. -/
def restoreCounters : List Condition → List Counter → List Condition
  | condition :: conditions, stored :: counters =>
      restoreCounter condition stored :: restoreCounters conditions counters
  | conditions, _ => conditions

/-- The achievement with stored progress. -/
def applyProgress (achievement : Achievement) (progress : Progress) : Achievement :=
  { achievement with
    primed := progress.primed
    remembered := progress.remembered.map StoredNumber.toNumber
    conditions := restoreCounters achievement.conditions progress.counters
    measure := progress.measure }

end Achievement

end Achievements
