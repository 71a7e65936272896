import Achievements.AchievementSet
import Achievements.Plan.Build
import Achievements.Plan.Execution
import Achievements.Settings

/-!
# Verifying achievement sets

The plan for an achievement is verified by playing it, on memory full of zeros that nothing else
writes to, before an engine that holds only this achievement. The states of all engines at the end
make up the state of the whole set. Where an entry has no plan, verification never comes to an end.
-/

set_option autoImplicit false

namespace Achievements

/-- What has come of the plan for one achievement. -/
structure Verdict where
  id : String
  title : String
  steps : Nat
  unlocked : Bool
  deriving DecidableEq, Repr, Inhabited

/-- A plan that is longer than allowed and has not been played. -/
structure PlanTooLong where
  id : String
  steps : Nat
  limit : Nat
  deriving DecidableEq, Repr

def PlanTooLong.message (fault : PlanTooLong) : String :=
  s!"Plan for {fault.id} has {fault.steps} steps (max_steps = {fault.limit})"

/-- The verdicts on the entries of a set, in order, and the state of them all. -/
structure VerifyReport where
  verdicts : List Verdict
  state : SavedState

/-- The number of achievements that did not unlock. -/
def VerifyReport.failures (report : VerifyReport) : Nat :=
  (report.verdicts.filter fun verdict => !verdict.unlocked).length

namespace SetEntry

def clauses (settings : Settings) (entry : SetEntry) : List Clause :=
  Formula.read settings.formula.framesPerSecond entry.formula

/-- The plan for an entry, unless there is none. -/
def plan? (platform : Platform) (settings : Settings) (entry : SetEntry) : Option Plan :=
  Plan.build? (entry.clauses settings) platform

/-- A frame in which nothing happens. -/
def idle : FrameStepper Unit :=
  fun ram state => (ram, state)

/-- Plays a plan for an entry. -/
def play (settings : Settings) (entry : SetEntry) (plan : Plan) : WatchedRun Unit :=
  let ram := Ram.zeroed settings.verify.ramSize
  let engine := Engine.create settings.formula.framesPerSecond (.readable ram)
  plan.watch idle entry.id ⟨ram, ()⟩ (engine.load entry.id entry.formula)

/-- The verdict on an entry whose plan has been played, and the state of its engine. -/
def judge (settings : Settings) (entry : SetEntry) (plan : Plan) : Verdict × SavedState :=
  let run := entry.play settings plan
  (⟨entry.id, entry.title, plan.length, run.unlocked⟩, run.engine.save)

/-- Verifies the plan for an entry; `none` if there is no plan. -/
def verify (platform : Platform) (settings : Settings) (entry : SetEntry) :
    Option (Except PlanTooLong (Verdict × SavedState)) := do
  let plan ← entry.plan? platform settings
  if plan.length ≤ settings.verify.maxSteps then return .ok (entry.judge settings plan)
  else return .error ⟨entry.id, plan.length, settings.verify.maxSteps⟩

end SetEntry

namespace AchievementSet

/-- Verifies the entries of a set in order, unless the plan for one of them is too long; `none` if
one of them has no plan. -/
def verify (platform : Platform) (settings : Settings) (set : AchievementSet) :
    Option (Except PlanTooLong VerifyReport) := ExceptT.run do
  let results ← set.mapM fun entry => ExceptT.mk (entry.verify platform settings)
  let states := results.map Prod.snd
  return ⟨results.map Prod.fst, states.foldl SavedState.merge .empty⟩

end AchievementSet

end Achievements
