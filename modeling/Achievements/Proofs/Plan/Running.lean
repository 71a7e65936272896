import Achievements.Proofs.Plan.Watching

/-!
# Runs step by step

A run of one plan after another is a run of the first and then, unless that one ends it, a run of the
second from where the first has stopped. `Plan.reportsOf` lists what a watching engine would report on
each frame if nothing ended the run; the run ends with the first of these reports that has the watched
id in it. `Plan.running_is_running_steps` says so of all plans and all watchers.
-/

set_option autoImplicit false

namespace Achievements

/-- The same frames, and a count of them. -/
def FrameStepper.counting {σ : Type} (stepper : FrameStepper σ) : FrameStepper (σ × ℕ) :=
  fun ram state =>
    let (ram, inner) := stepper ram state.1
    (ram, inner, state.2 + 1)

namespace Plan

/-- One plan after another. -/
instance : Append Plan :=
  ⟨fun first second => ⟨first.steps ++ second.steps⟩⟩

theorem steps_append (first second : Plan) : (first ++ second).steps = first.steps ++ second.steps :=
  rfl

section Run

variable {σ : Type} (stepper : FrameStepper σ)

/-- What an engine reports on each frame of a run that nothing ends. -/
def reportsOf : List Step → Console σ → Engine → List (List String)
  | [], _, _ => []
  | step :: steps, console, engine =>
      let console := step.play stepper console
      let (engine, report) := engine.frame (.readable console.ram)
      report :: reportsOf steps console engine

/-- How many reports there are up to the first one that has an id in it, or in all. -/
def framesUntil (id : String) (reported : List (List String)) : ℕ :=
  min (reported.findIdx (reports id) + 1) reported.length

/-- The number of frames that a console counts during a run. -/
def framesRun (plan : Plan) (console : Console σ) (watcher : Option Watcher) : ℕ :=
  (plan.execute stepper.counting ⟨console.ram, console.state, 0⟩ watcher).console.state.2

/-! ## Watched runs -/

variable (id : String)

theorem length_reports_of (steps : List Step) (console : Console σ) (engine : Engine) :
    (reportsOf stepper steps console engine).length = steps.length := by
  induction steps generalizing console engine with
  | nil => rfl
  | cons step steps ih => exact congrArg (· + 1) (ih _ _)

theorem reports_of_take (steps : List Step) (console : Console σ) (engine : Engine) (count : ℕ) :
    reportsOf stepper (steps.take count) console engine =
      (reportsOf stepper steps console engine).take count := by
  induction steps generalizing console engine count with
  | nil => rw [List.take_nil, reportsOf, List.take_nil]
  | cons step steps ih =>
      cases count with
      | zero => rfl
      | succ count => exact congrArg (_ :: ·) (ih _ _ count)

/-- A run that did not end goes on from where it is. -/
theorem watch_steps_append (earlier later : List Step) (console : Console σ) (engine : Engine) :
    watchSteps stepper id (earlier ++ later) console engine =
      let run := watchSteps stepper id earlier console engine
      if run.unlocked then run else watchSteps stepper id later run.console run.engine := by
  induction earlier generalizing console engine with
  | nil => rfl
  | cons step earlier ih =>
      simp only [List.cons_append, watchSteps]
      split
      · rfl
      · exact ih _ _

theorem unlocked_of_watch_steps (steps : List Step) (console : Console σ) (engine : Engine) :
    (watchSteps stepper id steps console engine).unlocked =
      (reportsOf stepper steps console engine).any (reports id) := by
  induction steps generalizing console engine with
  | nil => rfl
  | cons step steps ih =>
      simp only [watchSteps, reportsOf, List.any_cons]
      split
      · rename_i reported
        rw [reported, Bool.true_or]
      · rename_i silent
        rw [Bool.eq_false_iff.mpr silent, Bool.false_or, ih]

theorem frames_until_cons (report : List String) (reported : List (List String)) :
    framesUntil id (report :: reported) =
      if reports id report then 1 else framesUntil id reported + 1 := by
  rw [framesUntil, List.findIdx_cons, List.length_cons]
  cases reports id report with
  | true => simp
  | false => simp [framesUntil]

/-- Counting frames changes nothing but the count, and the frames counted are those up to the first
report of the watched id. -/
theorem watch_steps_counting (steps : List Step) (console : Console σ) (engine : Engine)
    (count : ℕ) :
    watchSteps stepper.counting id steps ⟨console.ram, console.state, count⟩ engine =
      let run := watchSteps stepper id steps console engine
      ⟨run.unlocked, ⟨run.console.ram, run.console.state,
        count + framesUntil id (reportsOf stepper steps console engine)⟩, run.engine⟩ := by
  induction steps generalizing console engine count with
  | nil => rfl
  | cons step steps ih =>
      have played : step.play stepper.counting ⟨console.ram, console.state, count⟩ =
          ⟨(step.play stepper console).ram, (step.play stepper console).state, count + 1⟩ := rfl
      simp only [watchSteps, reportsOf, played, frames_until_cons]
      split
      · rfl
      · rw [ih, Nat.add_assoc, Nat.add_comm 1]

/-- A watched run has made the steps of its frames. -/
theorem console_of_watch_steps (steps : List Step) (console : Console σ) (engine : Engine) :
    (watchSteps stepper id steps console engine).console =
      (steps.take (framesUntil id (reportsOf stepper steps console engine))).foldl
        (Step.play stepper) console := by
  induction steps generalizing console engine with
  | nil => rfl
  | cons step steps ih =>
      simp only [watchSteps, reportsOf, frames_until_cons]
      split
      · rfl
      · rw [ih, List.take_succ_cons, List.foldl_cons]

/-! ## Runs with and without a watcher -/

variable (plan : Plan) (console : Console σ) (watcher : Watcher)

/-- The end of a run with its watcher. -/
def ofWatched (run : WatchedRun σ) : PlanRun σ :=
  ⟨run.unlocked, run.console, some ⟨run.engine, watcher.id⟩⟩

theorem frames_run_watched : plan.framesRun stepper console (some watcher) =
    framesUntil watcher.id (reportsOf stepper plan.steps console watcher.engine) := by
  have counted := watch_steps_counting stepper watcher.id plan.steps console watcher.engine 0
  rw [framesRun, execute, watch, counted]
  exact Nat.zero_add _

theorem succeeded_watched : (plan.execute stepper console (some watcher)).succeeded =
    (reportsOf stepper plan.steps console watcher.engine).any (reports watcher.id) :=
  unlocked_of_watch_steps stepper watcher.id plan.steps console watcher.engine

theorem execute_append (first second : Plan) :
    (first ++ second).execute stepper console (some watcher) =
      let run := first.execute stepper console (some watcher)
      if run.succeeded then run else second.execute stepper run.console run.watcher := by
  have composed :=
    watch_steps_append stepper watcher.id first.steps second.steps console watcher.engine
  have whole : (first ++ second).execute stepper console (some watcher) =
      ofWatched watcher (watchSteps stepper watcher.id (first.steps ++ second.steps) console
        watcher.engine) := rfl
  rw [whole, composed]
  exact apply_ite (ofWatched watcher) _ _ _

/-- Is an id among those of a report, up to the case of ASCII letters? -/
def Names (id : String) (report : List String) : Prop :=
  ∃ other ∈ report, Text.equalIgnoringAsciiCase other.toList id.toList = true

/-- A watched run succeeds if the watched id is reported on one of its frames, and ends there. -/
structure EndsAtReport : Prop where
  succeeds_iff : (plan.execute stepper console (some watcher)).succeeded = true ↔
    ∃ report ∈ (reportsOf stepper plan.steps console watcher.engine).take
      (plan.framesRun stepper console (some watcher)), Names watcher.id report
  /-- The frame of the first such report is the last one, and steps after it have no effect. -/
  ends : ∀ before report after,
    reportsOf stepper plan.steps console watcher.engine = before ++ report :: after →
    (∀ earlier ∈ before, ¬ Names watcher.id earlier) → Names watcher.id report →
    plan.framesRun stepper console (some watcher) = before.length + 1 ∧
      ∀ others : List Step,
        (Plan.mk (plan.steps.take (before.length + 1) ++ others)).execute stepper console
          (some watcher) = plan.execute stepper console (some watcher)
  /-- Without one, all steps are made. -/
  goesOn : (∀ report ∈ reportsOf stepper plan.steps console watcher.engine,
      ¬ Names watcher.id report) →
    plan.framesRun stepper console (some watcher) = plan.length

theorem frames_until_of_first (id : String) {before : List (List String)} {report : List String}
    (after : List (List String)) (none : ∀ earlier ∈ before, ¬ Names id earlier)
    (named : Names id report) :
    framesUntil id (before ++ report :: after) = before.length + 1 := by
  induction before with
  | nil => rw [List.nil_append, frames_until_cons, if_pos (reports_iff.mpr named), List.length_nil]
  | cons earlier before ih =>
      obtain ⟨first, others⟩ := List.forall_mem_cons.mp none
      rw [List.cons_append, frames_until_cons, if_neg (fun found => first (reports_iff.mp found)),
        ih others, List.length_cons]

theorem frames_until_of_none (id : String) {reported : List (List String)}
    (none : ∀ report ∈ reported, ¬ Names id report) :
    framesUntil id reported = reported.length := by
  induction reported with
  | nil => rfl
  | cons report reported ih =>
      obtain ⟨first, others⟩ := List.forall_mem_cons.mp none
      rw [frames_until_cons, if_neg (fun found => first (reports_iff.mp found)), ih others,
        List.length_cons]

theorem any_take_until (id : String) (reported : List (List String)) :
    (reported.take (framesUntil id reported)).any (reports id) = reported.any (reports id) := by
  induction reported with
  | nil => rfl
  | cons report reported ih =>
      rw [frames_until_cons, List.any_cons]
      cases found : reports id report with
      | true => simp [found]
      | false => simp [found, ih]

/-- What follows a report of the watched id has no effect. -/
theorem execute_of_reported (steps others : List Step)
    (reported : (reportsOf stepper steps console watcher.engine).any (reports watcher.id) = true) :
    (Plan.mk (steps ++ others)).execute stepper console (some watcher) =
      (Plan.mk steps).execute stepper console (some watcher) := by
  have succeeded := succeeded_watched stepper ⟨steps⟩ console watcher
  rw [reported] at succeeded
  exact (execute_append stepper console watcher ⟨steps⟩ ⟨others⟩).trans (if_pos succeeded)

theorem ends_at_report : plan.EndsAtReport stepper console watcher where
  succeeds_iff := by
    rw [succeeded_watched, frames_run_watched, ← any_take_until, List.any_eq_true]
    simp only [reports_iff, Names]
  ends := by
    intro before report after split none named
    have shown : report ∈ before ++ [report] := List.mem_append_right _ List.mem_cons_self
    have first : (reportsOf stepper (plan.steps.take (before.length + 1)) console
        watcher.engine).any (reports watcher.id) = true := by
      rw [reports_of_take, split, List.take_length_add_append]
      exact List.any_eq_true.mpr ⟨report, shown, reports_iff.mpr named⟩
    have whole := execute_of_reported stepper console watcher
      (plan.steps.take (before.length + 1)) (plan.steps.drop (before.length + 1)) first
    rw [List.take_append_drop] at whole
    constructor
    · rw [frames_run_watched, split]
      exact frames_until_of_first watcher.id after none named
    · intro others
      exact (execute_of_reported stepper console watcher _ others first).trans whole.symm
  goesOn := by
    intro none
    rw [frames_run_watched, frames_until_of_none watcher.id none, length_reports_of, length]

theorem frames_run_unwatched : plan.framesRun stepper console none = plan.length := by
  have counted : ∀ (steps : List Step) (console : Console σ) (count : ℕ),
      (steps.foldl (Step.play stepper.counting)
        ⟨console.ram, console.state, count⟩).state.2 = count + steps.length := by
    intro steps
    induction steps with
    | nil => exact fun _ _ => rfl
    | cons step steps ih =>
        intro console count
        have rest := ih (step.play stepper console) (count + 1)
        rw [List.length_cons, Nat.add_comm steps.length, ← Nat.add_assoc, ← rest]
        rfl
  exact (counted plan.steps console 0).trans (Nat.zero_add _)

/-- A run has made the steps of its frames, watched or not. -/
theorem console_of_execute (watcher : Option Watcher) :
    (plan.execute stepper console watcher).console =
      (plan.steps.take (plan.framesRun stepper console watcher)).foldl (Step.play stepper)
        console := by
  cases watcher with
  | none =>
      rw [frames_run_unwatched, length, List.take_length]
      rfl
  | some watcher =>
      rw [frames_run_watched]
      exact console_of_watch_steps stepper watcher.id plan.steps console watcher.engine

/-- A watched run of two plans is the run of the first one if that succeeds, and else the run of the
second one from there. It ends with the first frame on which the watched id is reported. A run
without a watcher makes all steps of both plans and succeeds. -/
theorem running_is_running_steps :
    (∀ first second : Plan, (first ++ second).execute stepper console (some watcher) =
      let run := first.execute stepper console (some watcher)
      if run.succeeded then run else second.execute stepper run.console run.watcher) ∧
    (∀ plan : Plan, plan.EndsAtReport stepper console watcher) ∧
    ∀ first second : Plan,
      (first ++ second).execute stepper console none =
          second.execute stepper (first.execute stepper console none).console none ∧
        ((first ++ second).execute stepper console none).succeeded = true ∧
        (first ++ second).framesRun stepper console none = first.length + second.length := by
  refine ⟨execute_append stepper console watcher,
    fun plan => ends_at_report stepper plan console watcher, fun first second => ⟨?_, rfl, ?_⟩⟩
  · have composed : (first ++ second).run stepper console =
        second.run stepper (first.run stepper console) := List.foldl_append
    simp only [execute, composed]
  · rw [frames_run_unwatched, length, steps_append, List.length_append, length, length]

end Run

end Plan

end Achievements
