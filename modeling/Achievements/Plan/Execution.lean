import Achievements.Engine.Basic
import Achievements.Plan.Basic

/-!
# Running plans

A console has memory and lets frames pass, which may change the memory. Running a plan makes the
writes of each step and lets a frame pass. A watched run shows every frame to an engine and stops as
soon as the watched achievement unlocks. `Plan.execute` runs a plan with a watcher or without one.
-/

set_option autoImplicit false

namespace Achievements

/-- What one frame does to memory, with whatever state it keeps. -/
def FrameStepper (σ : Type) : Type :=
  Ram → σ → Ram × σ

/-- Memory and the state of the frame stepper. -/
structure Console (σ : Type) where
  ram : Ram
  state : σ
  deriving Repr

/-- The end of a watched run. -/
structure WatchedRun (σ : Type) where
  unlocked : Bool
  console : Console σ
  engine : Engine

/-- An engine that watches a run, and the id that it waits for. -/
structure Watcher where
  engine : Engine
  id : String

/-- The end of a run, with what has become of its watcher. -/
structure PlanRun (σ : Type) where
  succeeded : Bool
  console : Console σ
  watcher : Option Watcher

namespace Step

/-- One write. -/
def applyWrite (ram : Ram) (write : ByteWrite) : Ram :=
  ram.poke write.address.toNat (write.apply (ram.peek write.address.toNat))

/-- All writes of a step, in order. -/
def applyWrites (step : Step) (ram : Ram) : Ram :=
  step.writes.foldl applyWrite ram

/-- The writes of a step, then one frame. -/
def play {σ : Type} (stepper : FrameStepper σ) (console : Console σ) (step : Step) : Console σ :=
  let (ram, state) := stepper (step.applyWrites console.ram) console.state
  ⟨ram, state⟩

end Step

namespace Plan

/-- A run that nobody watches goes through all steps. -/
def run {σ : Type} (stepper : FrameStepper σ) (plan : Plan) (console : Console σ) : Console σ :=
  plan.steps.foldl (Step.play stepper) console

/-- Is the watched id among those that unlocked? Ids are compared up to the case of ASCII
letters. -/
def reports (id : String) (unlocked : List String) : Bool :=
  unlocked.any fun other => Text.equalIgnoringAsciiCase other.toList id.toList

/-- Steps watched by an engine, up to the one on which the watched id unlocks. -/
def watchSteps {σ : Type} (stepper : FrameStepper σ) (id : String) :
    List Step → Console σ → Engine → WatchedRun σ
  | [], console, engine => ⟨false, console, engine⟩
  | step :: steps, console, engine =>
      let console := step.play stepper console
      let (engine, unlocked) := engine.frame (.readable console.ram)
      if reports id unlocked then ⟨true, console, engine⟩
      else watchSteps stepper id steps console engine

/-- A run watched by an engine. -/
def watch {σ : Type} (stepper : FrameStepper σ) (id : String) (plan : Plan)
    (console : Console σ) (engine : Engine) : WatchedRun σ :=
  watchSteps stepper id plan.steps console engine

/-- A run. With a watcher it succeeds as soon as the watched id unlocks, and fails if no step makes
that happen; without one it succeeds once every step has been made. -/
def execute {σ : Type} (stepper : FrameStepper σ) (plan : Plan) (console : Console σ) :
    Option Watcher → PlanRun σ
  | some watcher =>
      let run := plan.watch stepper watcher.id console watcher.engine
      ⟨run.unlocked, run.console, some ⟨run.engine, watcher.id⟩⟩
  | none => ⟨true, plan.run stepper console, none⟩

end Plan

end Achievements
