import Achievements.Proofs.Plan.Writes
import Achievements.Proofs.Progress.Moves

/-!
# What a watched run shows

A watched run shows an engine the memory after each step. The frames that an achievement sees of it
are given by `History.watching`, and `Plan.watch_unlocks` turns an unlock on one of these frames into
the outcome of the run. On a console that does nothing by itself, memory after some steps is what
their writes have made of it.
-/

set_option autoImplicit false

namespace Achievements

namespace Achievement

theorem id_of_step (history : History) (achievement : Achievement) :
    (achievement.step history).1.id = achievement.id :=
  congrArg Prod.fst (entry_of_step history achievement)

/-- A run is its first frame and a run from there. -/
theorem after_first (achievement : Achievement) (frames : Nat → History) (count : Nat) :
    achievement.after frames (count + 1) =
      (achievement.step (frames 0)).1.after (fun frame => frames (frame + 1)) count := by
  induction count with
  | zero => rfl
  | succ count ih => rw [after, ih, after]

theorem unlocks_on_first (achievement : Achievement) (frames : Nat → History) (frame : Nat) :
    achievement.unlocksOn frames (frame + 1) =
      (achievement.step (frames 0)).1.unlocksOn (fun frame => frames (frame + 1)) frame := by
  rw [unlocksOn, after_first, unlocksOn]

end Achievement

namespace History

/-- The histories of an engine that is shown memory on one frame after another. -/
def watching (history : History) (seen : Nat → Ram) : Nat → History
  | 0 => history.advance (.readable (seen 0))
  | frame + 1 => (watching history seen frame).advance (.readable (seen (frame + 1)))

theorem watching_first (history : History) (seen : Nat → Ram) (frame : Nat) :
    history.watching seen (frame + 1) =
      (history.advance (.readable (seen 0))).watching (fun frame => seen (frame + 1)) frame := by
  induction frame with
  | zero => rfl
  | succ frame ih => rw [watching, ih, watching]

theorem now_of_watching (history : History) (seen : Nat → Ram) (frame : Nat) :
    (history.watching seen frame).now = (seen frame).bytes := by
  cases frame <;> rfl

theorem resize_bytes_of_size {size : Nat} {bytes : Array UInt8} (same : bytes.size = size) :
    resizeBytes size bytes = bytes :=
  if_pos same

/-- One frame ago, memory was what it was. -/
theorem prev_of_watching (history : History) (seen : Nat → Ram)
    (size : ∀ frame, (seen (frame + 1)).size = (seen frame).size) (frame : Nat) :
    (history.watching seen (frame + 1)).prev = (seen frame).bytes := by
  have now := history.now_of_watching seen frame
  have kept : resizeBytes (seen (frame + 1)).size (history.watching seen frame).now =
      (history.watching seen frame).now :=
    resize_bytes_of_size (by rw [now]; exact (size frame).symm)
  exact kept.trans now

/-- And so it was two frames ago. -/
theorem prior_of_watching (history : History) (seen : Nat → Ram)
    (size : ∀ frame, (seen (frame + 1)).size = (seen frame).size) (frame : Nat) :
    (history.watching seen (frame + 2)).prior = (seen frame).bytes := by
  have prev := history.prev_of_watching seen size frame
  have kept : resizeBytes (seen (frame + 2)).size (history.watching seen (frame + 1)).prev =
      (history.watching seen (frame + 1)).prev :=
    resize_bytes_of_size (by rw [prev]; exact ((size (frame + 1)).trans (size frame)).symm)
  exact kept.trans prev

end History

namespace Engine

theorem mem_unlocked_of_frame {engine : Engine} {view : RamView} {id : String} :
    id ∈ (engine.frame view).2 ↔ ∃ achievement ∈ engine.achievements,
      (achievement.step (engine.history.advance view)).2 = true ∧ achievement.id = id := by
  simp only [frame, List.filterMap_map, List.mem_filterMap, Function.comp_apply,
    Option.ite_none_right_eq_some, Option.some.injEq, Achievement.id_of_step]

end Engine

namespace Plan

theorem reports_iff {id : String} {unlocked : List String} :
    reports id unlocked = true ↔
      ∃ other ∈ unlocked, Text.equalIgnoringAsciiCase other.toList id.toList = true :=
  List.any_eq_true

theorem reports_self {id : String} {unlocked : List String} (member : id ∈ unlocked) :
    reports id unlocked = true :=
  reports_iff.mpr ⟨id, member, beq_self_eq_true _⟩

/-- Memory on a frame of a run. -/
def seen {σ : Type} (stepper : FrameStepper σ) (steps : List Step) (console : Console σ)
    (frame : Nat) : Ram :=
  ((steps.take (frame + 1)).foldl (Step.play stepper) console).ram

/-- A watched run that ended with an unlock of the watched id. -/
structure Succeeds {σ : Type} (id : String) (run : WatchedRun σ) : Prop where
  unlocked : run.unlocked = true
  present : ∃ achievement ∈ run.engine.achievements, achievement.unlocked = true ∧
    Text.equalIgnoringAsciiCase achievement.id.toList id.toList = true

/-- The run succeeds by the frame on which an achievement of the engine unlocks. -/
theorem watch_steps_unlocks {σ : Type} (stepper : FrameStepper σ) (steps : List Step)
    (console : Console σ) (engine : Engine) {achievement : Achievement}
    (member : achievement ∈ engine.achievements) (frame : Nat) (below : frame < steps.length)
    (unlocks : achievement.unlocksOn
      (engine.history.watching (seen stepper steps console)) frame = true) :
    Succeeds achievement.id (watchSteps stepper achievement.id steps console engine) := by
  induction steps generalizing console engine achievement frame with
  | nil => cases below
  | cons step steps ih =>
      rw [watchSteps]
      simp only
      by_cases reported : reports achievement.id
          (engine.frame (.readable (step.play stepper console).ram)).2 = true
      · -- Another achievement of the same id may have unlocked first, which ends the run as well.
        rw [if_pos reported]
        obtain ⟨id, inUnlocked, same⟩ := reports_iff.mp reported
        obtain ⟨other, loaded, unlocked, rfl⟩ := Engine.mem_unlocked_of_frame.mp inUnlocked
        refine ⟨rfl, _, List.mem_map_of_mem (List.mem_map_of_mem loaded),
          Achievement.unlocked_of_step unlocked, ?_⟩
        rw [Achievement.id_of_step]
        exact same
      · rw [if_neg reported]
        cases frame with
        | zero =>
            have listed := Engine.mem_unlocked_of_frame.mpr ⟨achievement, member, unlocks, rfl⟩
            exact absurd (reports_self listed) reported
        | succ frame =>
            rw [Achievement.unlocks_on_first] at unlocks
            have later := ih (step.play stepper console)
              (engine.frame (.readable (step.play stepper console).ram)).1
              (List.mem_map_of_mem (List.mem_map_of_mem member)) frame
              (Nat.lt_of_succ_lt_succ below) (by
                simp only [History.watching_first] at unlocks
                exact unlocks)
            rwa [Achievement.id_of_step] at later

/-- A console that does nothing by itself. -/
def idle {σ : Type} : FrameStepper σ :=
  fun ram state => (ram, state)

/-- What some steps have made of memory. -/
def ramAfter (ram : Ram) (steps : List Step) : Ram :=
  ram.write (steps.flatMap (·.writes))

@[simp] theorem size_ram_after (ram : Ram) (steps : List Step) :
    (ramAfter ram steps).size = ram.size :=
  ram.size_write _

/-- If frames leave memory alone, only the writes of the steps change it. -/
theorem ram_of_quiet {σ : Type} {stepper : FrameStepper σ}
    (quiet : ∀ ram state, (stepper ram state).1 = ram) (steps : List Step) (console : Console σ) :
    (steps.foldl (Step.play stepper) console).ram = ramAfter console.ram steps := by
  induction steps generalizing console with
  | nil => rfl
  | cons step steps ih =>
      have first : (step.play stepper console).ram = console.ram.write step.writes := quiet _ _
      rw [List.foldl_cons, ih, first, ramAfter, ramAfter, List.flatMap_cons, Ram.write_append]

theorem ram_of_idle {σ : Type} (steps : List Step) (console : Console σ) :
    (steps.foldl (Step.play idle) console).ram = ramAfter console.ram steps :=
  ram_of_quiet (fun _ _ => rfl) steps console

theorem seen_of_idle {σ : Type} (steps : List Step) (console : Console σ) :
    seen idle steps console = fun frame => ramAfter console.ram (steps.take (frame + 1)) :=
  funext fun _ => ram_of_idle _ _

/-- A formula on the frames of a plan. -/
def timeline (clauses : List Clause) (history : History) (steps : List Step) (ram : Ram) :
    Timeline where
  clauses := clauses
  frames := history.watching fun frame => ramAfter ram (steps.take (frame + 1))

section Frames

variable (clauses : List Clause) (history : History) (steps : List Step) (ram : Ram) (frame : Nat)

theorem now_of_frame : ((timeline clauses history steps ram).frames frame).now =
    (ramAfter ram (steps.take (frame + 1))).bytes :=
  history.now_of_watching _ frame

theorem prev_of_frame : ((timeline clauses history steps ram).frames (frame + 1)).prev =
    (ramAfter ram (steps.take (frame + 1))).bytes :=
  history.prev_of_watching _ (fun _ => by simp only [size_ram_after]) frame

theorem prior_of_frame : ((timeline clauses history steps ram).frames (frame + 2)).prior =
    (ramAfter ram (steps.take (frame + 1))).bytes :=
  history.prior_of_watching _ (fun _ => by simp only [size_ram_after]) frame

end Frames

/-- A plan succeeds if the formula would unlock on one of its frames. -/
theorem watch_unlocks {σ : Type} (plan : Plan) (console : Console σ) (engine : Engine)
    (id formula : String) (clauses : List Clause)
    (member : Achievement.fresh id formula clauses ∈ engine.achievements)
    (unlocks : ∃ frame < plan.length, (Achievement.fresh id formula clauses).unlocksOn
      (timeline clauses engine.history plan.steps console.ram).frames frame = true) :
    Succeeds id (plan.watch idle id console engine) := by
  obtain ⟨frame, below, unlocks⟩ := unlocks
  rw [timeline, ← seen_of_idle] at unlocks
  exact watch_steps_unlocks idle plan.steps console engine member frame below unlocks

end Plan

end Achievements
