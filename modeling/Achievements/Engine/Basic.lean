import Achievements.Engine.SavedState
import Achievements.Formula.Reader
import Achievements.Progress.Frame
import Achievements.Text.LowerCase

/-!
# The engine

An engine holds the loaded achievements, in load order, and the last three frames of the memory
they are about. Memory is shown to it as a `RamView` at every frame; a view that cannot be read
leaves the engine with the frame before. An index gives the place of each id.
-/

set_option autoImplicit false

namespace Achievements

/-- Loaded achievements and the memory they have seen. -/
structure Engine where
  framesPerSecond : UInt32
  /-- In load order, which is also the order of evaluation and of saving. -/
  achievements : List Achievement
  /-- The place of each id in `achievements`. -/
  index : List (String × Nat)
  history : History
  deriving Inhabited

namespace Engine

/-- An engine without achievements that sees memory for the first time. -/
def create (framesPerSecond : UInt32) (view : RamView) : Engine :=
  ⟨framesPerSecond, [], [], .capture view⟩

/-- The place of an id. -/
def slot? (engine : Engine) (id : String) : Option Nat :=
  engine.index.lookup id

/-- The achievement of an id. -/
def find? (engine : Engine) (id : String) : Option Achievement :=
  match engine.slot? id with
  | some slot => engine.achievements[slot]?
  | none => none

/-- Loads an achievement. One that has the same id is replaced, in its place. -/
def load (engine : Engine) (id formula : String) : Engine :=
  let achievement := Achievement.fresh id formula (Formula.read engine.framesPerSecond formula)
  match engine.slot? id with
  | some slot => { engine with achievements := engine.achievements.set slot achievement }
  | none =>
      { engine with
        achievements := engine.achievements ++ [achievement]
        index := engine.index ++ [(id, engine.achievements.length)] }

/-- Loads achievements in turn. -/
def loadAll (engine : Engine) (entries : List (String × String)) : Engine :=
  entries.foldl (fun engine (id, formula) => engine.load id formula) engine

/-- One frame passes. The result also has the ids that unlocked on it, in load order. -/
def frame (engine : Engine) (view : RamView) : Engine × List String :=
  let history := engine.history.advance view
  let stepped := engine.achievements.map (Achievement.step history)
  let unlocked := stepped.filterMap fun (achievement, unlocks) =>
    if unlocks then some achievement.id else none
  ({ engine with achievements := stepped.map Prod.fst, history }, unlocked)

/-- What is to be kept of the engine. -/
def save (engine : Engine) : SavedState :=
  let (unlocked, locked) := engine.achievements.partition (·.unlocked)
  { schema := SavedState.currentSchema
    completed := unlocked.map (·.id)
    progress := IdMap.empty.insertAll (locked.map fun achievement =>
      (achievement.id, achievement.progress)) }

/-- The place of a stored id: that of the same id, else that of the first id equal to it in lower
case. -/
def matchSlot? (engine : Engine) (id : String) : Option Nat :=
  match engine.slot? id with
  | some slot => some slot
  | none =>
      let wanted := Text.lowerCase id
      engine.achievements.findIdx? fun achievement => Text.lowerCase achievement.id == wanted

/-- Applies a change to the achievement that a stored id refers to, if there is one. -/
def modifyMatch (engine : Engine) (id : String) (change : Achievement → Achievement) : Engine :=
  match engine.matchSlot? id with
  | some slot => { engine with achievements := engine.achievements.modify slot change }
  | none => engine

/-- The engine with all achievements back at power-on. -/
def clear (engine : Engine) : Engine :=
  { engine with achievements := engine.achievements.map Achievement.powerOn }

/-- The engine with all frames seen replaced by the current one, unless that cannot be read. -/
def resync (engine : Engine) (view : RamView) : Engine :=
  { engine with history := engine.history.resync view }

/-- The engine with a stored id unlocked. -/
def complete (engine : Engine) (id : String) : Engine :=
  engine.modifyMatch id fun achievement => { achievement with unlocked := true }

/-- The engine with stored progress applied, unless the achievement is unlocked. -/
def applyProgress (engine : Engine) (id : String) (progress : Progress) : Engine :=
  engine.modifyMatch id fun achievement =>
    if achievement.unlocked then achievement else achievement.applyProgress progress

/-- Replaces all progress by that of a saved state. Ids that are not loaded are passed over. -/
def restore (engine : Engine) (state : SavedState) (view : RamView) : Engine :=
  let engine := state.completed.foldl complete engine.clear
  let engine := state.progress.entries.foldl
    (fun engine (id, progress) => engine.applyProgress id progress) engine
  engine.resync view

/-- Back to power-on, unlocks included. -/
def powerOn (engine : Engine) (view : RamView) : Engine :=
  engine.clear.resync view

end Engine

end Achievements
