import Achievements.Engine.Basic
import Achievements.Proofs.Progress.Moves
import Mathlib.Data.List.Nodup

/-!
# What an engine does over time

An engine starts empty and performs operations: it loads formulas, lets frames pass, restores states
and returns to power-on. Apart from loading, all of these leave the achievements in their places and
only turn each of them into a later form of itself, so every invariant of an engine is one of the
turns of a single achievement. `Engine.run_is_sound` collects the invariants of all runs.
-/

set_option autoImplicit false

namespace Achievements

namespace Achievement

/-- What becomes of an achievement after loading. It is only given stored progress, or unlocked
without having achieved anything, where states are restored. -/
inductive Turn (restoring : Bool) : Achievement → Achievement → Prop where
  | step (achievement : Achievement) (history : History) :
      Turn restoring achievement (achievement.step history).1
  | powerOn (achievement : Achievement) : Turn restoring achievement achievement.powerOn
  | unlock (achievement : Achievement) (restores : restoring = true) :
      Turn restoring achievement { achievement with unlocked := true }
  | resume (achievement : Achievement) (progress : Progress) (restores : restoring = true) :
      Turn restoring achievement (achievement.applyProgress progress)

abbrev Turns (restoring : Bool) : Achievement → Achievement → Prop :=
  Relation.ReflTransGen (Turn restoring)

/-- Progress of an achievement that is unlocked already is passed over. -/
def resumed (progress : Progress) (achievement : Achievement) : Achievement :=
  if achievement.unlocked then achievement else achievement.applyProgress progress

/-- The clauses are those that the formula says. -/
def Compiled (framesPerSecond : UInt32) (achievement : Achievement) : Prop :=
  achievement.clauses = Formula.read framesPerSecond achievement.formula

def Bounded (achievement : Achievement) : Prop :=
  ∀ condition ∈ achievement.conditions, condition.Bounded

def Tallied (achievement : Achievement) : Prop :=
  ∀ condition ∈ achievement.conditions, condition.Tallied

variable {restoring : Bool} {achievement later : Achievement}

theorem clauses_of_restored (conditions : List Condition) (counters : List Counter) :
    (restoreCounters conditions counters).map (·.clause) = conditions.map (·.clause) := by
  induction conditions generalizing counters with
  | nil => rfl
  | cons condition conditions ih =>
      cases counters with
      | nil => rfl
      | cons stored counters => exact congrArg (condition.clause :: ·) (ih counters)

/-- Stored hits are cut off at the target. Conditions beyond the stored ones stay as they are. -/
theorem bounded_of_restored {conditions : List Condition} (counters : List Counter)
    (bounded : ∀ condition ∈ conditions, condition.Bounded) :
    ∀ condition ∈ restoreCounters conditions counters, condition.Bounded := by
  induction conditions generalizing counters with
  | nil => exact bounded
  | cons condition conditions ih =>
      cases counters with
      | nil => exact bounded
      | cons stored counters =>
          intro other member
          rcases List.mem_cons.mp member with rfl | later
          · intro positive
            simp only [restoreCounter] at positive ⊢
            rw [if_pos positive]
            exact Std.min_le_right
          · exact ih counters (fun other inRest => bounded other (List.mem_cons_of_mem _ inRest))
              other later

theorem entry_of_turn (turn : Turn restoring achievement later) :
    later.entry = achievement.entry := by
  cases turn with
  | step history => exact entry_of_step history achievement
  | powerOn | unlock | resume => rfl

theorem clauses_of_turn (turn : Turn restoring achievement later) :
    later.clauses = achievement.clauses := by
  cases turn with
  | step history => exact clauses_of_step history achievement
  | powerOn => exact List.map_map
  | unlock => rfl
  | resume progress => exact clauses_of_restored _ _

theorem compiled_of_turn {framesPerSecond : UInt32} (turn : Turn restoring achievement later)
    (compiled : achievement.Compiled framesPerSecond) : later.Compiled framesPerSecond := by
  have sameFormula : later.formula = achievement.formula := congrArg Prod.snd (entry_of_turn turn)
  rw [Compiled, clauses_of_turn turn, sameFormula]
  exact compiled

theorem bounded_of_turn (turn : Turn restoring achievement later) (bounded : achievement.Bounded) :
    later.Bounded := by
  cases turn with
  | step history =>
      exact forall_of_related (moves_of_step history achievement)
        (fun _ _ => Condition.bounded_of_moves) bounded
  | powerOn =>
      intro condition member
      obtain ⟨earlier, _, rfl⟩ := List.mem_map.mp member
      exact Condition.bounded_fresh _
  | unlock => exact bounded
  | resume progress => exact bounded_of_restored _ bounded

theorem tallied_of_turn (turn : Turn false achievement later) (tallied : achievement.Tallied) :
    later.Tallied := by
  cases turn with
  | step history =>
      exact forall_of_related (moves_of_step history achievement)
        (fun _ _ => Condition.tallied_of_moves) tallied
  | powerOn =>
      intro condition member
      obtain ⟨earlier, _, rfl⟩ := List.mem_map.mp member
      exact Condition.tallied_fresh _
  | unlock restores => cases restores
  | resume progress restores => cases restores

theorem turns_of_resumed (progress : Progress) (achievement : Achievement) :
    Turns true achievement (achievement.resumed progress) := by
  unfold resumed
  split
  · exact .refl
  · exact .single (.resume achievement progress rfl)

/-- What every turn keeps is kept for good. -/
theorem keeps_of_turns (property : Achievement → Prop) (turns : Turns restoring achievement later)
    (keeps : ∀ before after, Turn restoring before after → property before → property after)
    (initially : property achievement) : property later := by
  induction turns with
  | refl => exact initially
  | tail _ turn ih => exact keeps _ _ turn ih

theorem turns_trans {before between after : List Achievement}
    (first : List.Forall₂ (Turns restoring) before between)
    (second : List.Forall₂ (Turns restoring) between after) :
    List.Forall₂ (Turns restoring) before after := by
  induction first generalizing after with
  | nil => exact second
  | cons head _ ih =>
      cases second with
      | cons next rest => exact .cons (head.trans next) (ih rest)

/-- What no turn changes is the same for all achievements in their order. -/
theorem map_of_turns {α : Type} (field : Achievement → α)
    (keeps : ∀ before after, Turn restoring before after → field after = field before)
    {before after : List Achievement} (turns : List.Forall₂ (Turns restoring) before after) :
    after.map field = before.map field := by
  apply Eq.symm
  rw [← List.forall₂_eq_eq_eq, List.forall₂_map_left_iff, List.forall₂_map_right_iff]
  refine turns.imp fun first last turned => ?_
  exact keeps_of_turns (fun other => field first = field other) turned
    (fun _ _ turn earlier => earlier.trans (keeps _ _ turn).symm) rfl

end Achievement

namespace History

/-- All generations have one size. -/
structure Even (history : History) : Prop where
  prev : history.prev.size = history.now.size
  prior : history.prior.size = history.now.size

theorem size_of_resized (size : Nat) (bytes : Array UInt8) :
    (resizeBytes size bytes).size = size := by
  unfold resizeBytes
  split
  · assumption
  · exact Array.size_ofFn

theorem size_of_copy {view : RamView} {bytes : Array UInt8} (copied : view.copy = .ok bytes) :
    bytes.size = view.size := by
  cases view with
  | readable ram =>
      cases copied
      rfl
  | unreadable => cases copied

/-- Sizes are adjusted to the memory that is seen, whether it can be read or not. -/
theorem even_advance (history : History) (view : RamView) : (history.advance view).Even := by
  unfold advance
  cases copied : view.copy with
  | ok bytes =>
      have size := size_of_copy copied
      constructor <;> exact (size_of_resized _ _).trans size.symm
  | error =>
      constructor <;> exact (size_of_resized _ _).trans (size_of_resized _ _).symm

theorem even_resync {history : History} (even : history.Even) (view : RamView) :
    (history.resync view).Even := by
  unfold resync
  cases view.copy with
  | ok bytes => exact ⟨rfl, rfl⟩
  | error => exact even

end History

namespace Engine

inductive Operation where
  | load (id formula : String)
  | frame (view : RamView)
  | restore (state : SavedState) (view : RamView)
  | powerOn (view : RamView)

def Operation.isRestore : Operation → Bool
  | .restore .. => true
  | _ => false

def perform (engine : Engine) : Operation → Engine
  | .load id formula => engine.load id formula
  | .frame view => (engine.frame view).1
  | .restore state view => engine.restore state view
  | .powerOn view => engine.powerOn view

def run (engine : Engine) (operations : List Operation) : Engine :=
  operations.foldl perform engine

def ids (engine : Engine) : List String :=
  engine.achievements.map (·.id)

/-- An engine some time later, during which nothing was loaded. -/
structure Becomes (restoring : Bool) (engine later : Engine) : Prop where
  turns : List.Forall₂ (Achievement.Turns restoring) engine.achievements later.achievements
  index : later.index = engine.index
  framesPerSecond : later.framesPerSecond = engine.framesPerSecond
  even : engine.history.Even → later.history.Even

namespace Becomes

variable {restoring : Bool} {engine between later : Engine}

theorem refl (engine : Engine) : engine.Becomes restoring engine where
  turns := List.forall₂_same.mpr fun _ _ => .refl
  index := rfl
  framesPerSecond := rfl
  even := id

theorem trans (first : engine.Becomes restoring between) (second : between.Becomes restoring later) :
    engine.Becomes restoring later where
  turns := Achievement.turns_trans first.turns second.turns
  index := second.index.trans first.index
  framesPerSecond := second.framesPerSecond.trans first.framesPerSecond
  even := second.even ∘ first.even

theorem frame (engine : Engine) (view : RamView) :
    engine.Becomes restoring (engine.frame view).1 where
  turns := by
    simp only [Engine.frame, List.map_map, List.forall₂_map_right_iff]
    exact List.forall₂_same.mpr fun achievement _ => .single (.step achievement _)
  index := rfl
  framesPerSecond := rfl
  even := fun _ => History.even_advance _ view

theorem resync (engine : Engine) (view : RamView) :
    engine.Becomes restoring (engine.resync view) where
  turns := (refl engine).turns
  index := rfl
  framesPerSecond := rfl
  even := fun even => History.even_resync even view

theorem clear (engine : Engine) : engine.Becomes restoring engine.clear where
  turns := by
    simp only [Engine.clear, List.forall₂_map_right_iff]
    exact List.forall₂_same.mpr fun achievement _ => .single (.powerOn achievement)
  index := rfl
  framesPerSecond := rfl
  even := id

theorem powerOn (engine : Engine) (view : RamView) :
    engine.Becomes restoring (engine.powerOn view) :=
  (clear engine).trans (resync _ view)

/-- Which achievement a stored id refers to does not matter here. -/
theorem modify_match (engine : Engine) (id : String) (change : Achievement → Achievement)
    (turns : ∀ achievement, Achievement.Turns restoring achievement (change achievement)) :
    engine.Becomes restoring (engine.modifyMatch id change) := by
  unfold modifyMatch
  split
  · rename_i slot _
    have changed := forall_modify (refl engine).turns slot change fun _ _ earlier =>
      earlier.trans (turns _)
    exact ⟨changed, rfl, rfl, fun even => even⟩
  · exact refl engine

theorem foldl {α : Type} (items : List α) {change : Engine → α → Engine}
    (becomes : ∀ before item, Becomes restoring before (change before item)) (start : Engine) :
    start.Becomes restoring (items.foldl change start) := by
  induction items generalizing start with
  | nil => exact refl start
  | cons item items ih => exact (becomes start item).trans (ih (change start item))

theorem complete_all (engine : Engine) (completed : List String) :
    engine.Becomes true (completed.foldl complete engine) :=
  foldl _ (fun before id => modify_match before id _ fun achievement =>
    .single (.unlock achievement rfl)) _

theorem resume_all (engine : Engine) (progress : IdMap Progress) :
    engine.Becomes true (progress.entries.foldl
      (fun engine stored => engine.applyProgress stored.1 stored.2) engine) :=
  foldl progress.entries (fun before stored =>
    modify_match before stored.1 _ (Achievement.turns_of_resumed stored.2)) engine

theorem restore (engine : Engine) (state : SavedState) (view : RamView) :
    engine.Becomes true (engine.restore state view) := by
  have completed := complete_all engine.clear state.completed
  have resumed := resume_all (state.completed.foldl complete engine.clear) state.progress
  exact (((clear engine).trans completed).trans resumed).trans (resync _ view)

end Becomes

/-- An engine as loading has left it. Nothing is said about progress. -/
structure Loaded (engine : Engine) : Prop where
  distinct : engine.ids.Nodup
  indexed : ∀ id slot, engine.slot? id = some slot ↔ engine.ids[slot]? = some id
  compiled : ∀ achievement ∈ engine.achievements, achievement.Compiled engine.framesPerSecond

structure Sound (engine : Engine) : Prop extends Loaded engine where
  bounded : ∀ achievement ∈ engine.achievements, achievement.Bounded
  even : engine.history.Even

def Tallied (engine : Engine) : Prop :=
  ∀ achievement ∈ engine.achievements, achievement.Tallied

theorem sound_create (framesPerSecond : UInt32) (view : RamView) :
    (create framesPerSecond view).Sound where
  distinct := List.nodup_nil
  indexed := by
    intro id slot
    simp [create, slot?, ids]
  compiled := by
    intro achievement member
    cases member
  bounded := by
    intro achievement member
    cases member
  even := History.even_resync ⟨rfl, rfl⟩ view

theorem ids_eq (engine : Engine) :
    engine.ids = (engine.achievements.map Achievement.entry).map Prod.fst := by
  rw [ids, List.map_map]
  rfl

theorem Becomes.ids {restoring : Bool} {engine later : Engine}
    (becomes : engine.Becomes restoring later) : later.ids = engine.ids := by
  rw [ids_eq, ids_eq,
    Achievement.map_of_turns Achievement.entry (fun _ _ => Achievement.entry_of_turn) becomes.turns]

theorem Becomes.loaded {restoring : Bool} {engine later : Engine}
    (becomes : engine.Becomes restoring later) (loaded : engine.Loaded) : later.Loaded where
  distinct := by
    rw [becomes.ids]
    exact loaded.distinct
  indexed := by
    unfold slot?
    rw [becomes.ids, becomes.index]
    exact loaded.indexed
  compiled := by
    rw [becomes.framesPerSecond]
    exact forall_of_related becomes.turns
      (fun _ _ turns => Achievement.keeps_of_turns _ turns
        fun _ _ => Achievement.compiled_of_turn) loaded.compiled

theorem Becomes.sound {restoring : Bool} {engine later : Engine}
    (becomes : engine.Becomes restoring later) (sound : engine.Sound) : later.Sound where
  toLoaded := becomes.loaded sound.toLoaded
  bounded := forall_of_related becomes.turns
    (fun _ _ turns => Achievement.keeps_of_turns _ turns
      fun _ _ => Achievement.bounded_of_turn) sound.bounded
  even := becomes.even sound.even

theorem Becomes.tallied {engine later : Engine} (becomes : engine.Becomes false later)
    (tallied : engine.Tallied) : later.Tallied :=
  forall_of_related becomes.turns
    (fun _ _ turns => Achievement.keeps_of_turns _ turns fun _ _ => Achievement.tallied_of_turn)
    tallied

/-- Loading puts a fresh achievement into some place; all others stay. -/
theorem mem_load {engine : Engine} {id formula : String} {achievement : Achievement}
    (member : achievement ∈ (engine.load id formula).achievements) :
    achievement = .fresh id formula (Formula.read engine.framesPerSecond formula) ∨
      achievement ∈ engine.achievements := by
  unfold load at member
  simp only at member
  split at member
  · exact (List.mem_or_eq_of_mem_set member).symm
  · exact (List.mem_append.mp member).symm.imp_left List.mem_singleton.mp

theorem rate_of_load (engine : Engine) (id formula : String) :
    (engine.load id formula).framesPerSecond = engine.framesPerSecond := by
  unfold load
  simp only
  split <;> rfl

/-- Loading an id again changes neither the ids nor the index. -/
theorem names_of_load_again {engine : Engine} {id : String} {slot : Nat}
    (found : engine.slot? id = some slot) (place : engine.ids[slot]? = some id) (formula : String) :
    (engine.load id formula).ids = engine.ids ∧ (engine.load id formula).index = engine.index := by
  obtain ⟨below, same⟩ := List.getElem?_eq_some_iff.mp place
  have unchanged := List.set_getElem_self below
  rw [same] at unchanged
  constructor
  · simp only [ids, load, found, List.map_set]
    exact unchanged
  · simp only [load, found]

/-- Loading a new id adds it to the ids, and its place to the index. -/
theorem names_of_load_new {engine : Engine} {id : String} (found : engine.slot? id = none)
    (formula : String) :
    (engine.load id formula).ids = engine.ids ++ [id] ∧
      (engine.load id formula).index = engine.index ++ [(id, engine.ids.length)] := by
  have length : engine.ids.length = engine.achievements.length := List.length_map _
  constructor
  · simp only [ids, load, found, List.map_append]
    rfl
  · rw [length]
    simp only [load, found]

/-- An index stays right if a new name is added at the end. -/
theorem indexed_concat {index : List (String × Nat)} {names : List String} {id : String}
    (indexed : ∀ name slot, index.lookup name = some slot ↔ names[slot]? = some name)
    (absent : index.lookup id = none) (name : String) (slot : Nat) :
    (index ++ [(id, names.length)]).lookup name = some slot ↔
      (names ++ [id])[slot]? = some name := by
  have atEnd : (names ++ [id])[slot]? = some name ↔
      names[slot]? = some name ∨ slot = names.length ∧ name = id := by
    rw [List.getElem?_append]
    split
    · rename_i inside
      simp [Nat.ne_of_lt inside]
    · rename_i outside
      have beyond := Nat.le_of_not_lt outside
      rw [List.getElem?_eq_none beyond, List.getElem?_singleton]
      by_cases last : slot = names.length
      · simp [last, eq_comm]
      · have further : slot - names.length ≠ 0 := by omega
        simp [last, further]
  rw [atEnd, ← indexed name slot, List.lookup_append]
  by_cases same : name = id
  · subst same
    simp [absent, eq_comm]
  · have different : (name == id) = false := beq_false_of_ne same
    simp [List.lookup_cons, different, same]

theorem loaded_load {engine : Engine} (loaded : engine.Loaded) (id formula : String) :
    (engine.load id formula).Loaded := by
  have compiled : ∀ achievement ∈ (engine.load id formula).achievements,
      achievement.Compiled (engine.load id formula).framesPerSecond := by
    intro achievement member
    rw [rate_of_load]
    rcases mem_load member with rfl | before
    · exact Achievement.clauses_of_fresh _ _ _
    · exact loaded.compiled achievement before
  cases found : engine.slot? id with
  | some slot =>
      have place := (loaded.indexed id slot).mp found
      obtain ⟨sameIds, sameIndex⟩ := names_of_load_again found place formula
      refine ⟨by rw [sameIds]; exact loaded.distinct, ?_, compiled⟩
      unfold slot?
      rw [sameIds, sameIndex]
      exact loaded.indexed
  | none =>
      -- A loaded id would have a slot.
      have absent : id ∉ engine.ids := by
        intro member
        obtain ⟨slot, place⟩ := List.mem_iff_getElem?.mp member
        rw [(loaded.indexed id slot).mpr place] at found
        cases found
      obtain ⟨moreIds, moreIndex⟩ := names_of_load_new found formula
      constructor
      · rw [moreIds, ← List.concat_eq_append]
        exact loaded.distinct.concat absent
      · unfold slot?
        rw [moreIds, moreIndex]
        exact indexed_concat loaded.indexed found
      · exact compiled

theorem sound_load {engine : Engine} (sound : engine.Sound) (id formula : String) :
    (engine.load id formula).Sound where
  toLoaded := loaded_load sound.toLoaded id formula
  bounded := by
    intro achievement member
    rcases mem_load member with rfl | before
    · intro condition member
      obtain ⟨clause, _, rfl⟩ := List.mem_map.mp member
      exact Condition.bounded_fresh clause
    · exact sound.bounded achievement before
  even := by
    unfold load
    simp only
    split <;> exact sound.even

theorem tallied_load {engine : Engine} (tallied : engine.Tallied) (id formula : String) :
    (engine.load id formula).Tallied := by
  intro achievement member
  rcases mem_load member with rfl | before
  · intro condition member
    obtain ⟨clause, _, rfl⟩ := List.mem_map.mp member
    exact Condition.tallied_fresh clause
  · exact tallied achievement before

/-- All operations but loading only turn achievements into later forms. -/
theorem becomes_of_perform (engine : Engine) (operation : Operation) :
    (∃ id formula, operation = .load id formula) ∨
      engine.Becomes operation.isRestore (engine.perform operation) := by
  cases operation with
  | load id formula => exact .inl ⟨id, formula, rfl⟩
  | frame view => exact .inr (.frame engine view)
  | restore state view => exact .inr (.restore engine state view)
  | powerOn view => exact .inr (.powerOn engine view)

/-- What every operation keeps, a run keeps. -/
theorem keeps_of_run {engine : Engine} (property : Engine → Prop) (operations : List Operation)
    (keeps : ∀ operation ∈ operations, ∀ before : Engine,
      property before → property (before.perform operation))
    (initially : property engine) : property (engine.run operations) := by
  induction operations generalizing engine with
  | nil => exact initially
  | cons operation operations ih =>
      rw [List.forall_mem_cons] at keeps
      exact ih keeps.2 (keeps.1 engine initially)

theorem sound_perform {engine : Engine} (sound : engine.Sound) (operation : Operation) :
    (engine.perform operation).Sound := by
  rcases engine.becomes_of_perform operation with ⟨id, formula, rfl⟩ | becomes
  · exact sound_load sound id formula
  · exact becomes.sound sound

theorem tallied_perform {engine : Engine} (tallied : engine.Tallied) {operation : Operation}
    (progressing : operation.isRestore = false) : (engine.perform operation).Tallied := by
  rcases engine.becomes_of_perform operation with ⟨id, formula, rfl⟩ | becomes
  · exact tallied_load tallied id formula
  · rw [progressing] at becomes
    exact becomes.tallied tallied

theorem rate_of_perform (engine : Engine) (operation : Operation) :
    (engine.perform operation).framesPerSecond = engine.framesPerSecond := by
  rcases engine.becomes_of_perform operation with ⟨id, formula, rfl⟩ | becomes
  · exact engine.rate_of_load id formula
  · exact becomes.framesPerSecond

theorem sound_run {engine : Engine} (sound : engine.Sound) (operations : List Operation) :
    (engine.run operations).Sound :=
  keeps_of_run _ operations (fun operation _ _ earlier => sound_perform earlier operation) sound

theorem tallied_run {engine : Engine} (tallied : engine.Tallied) {operations : List Operation}
    (progressing : ∀ operation ∈ operations, operation.isRestore = false) :
    (engine.run operations).Tallied :=
  keeps_of_run _ operations (fun operation member _ earlier =>
    tallied_perform earlier (progressing operation member)) tallied

theorem rate_of_run (engine : Engine) (operations : List Operation) :
    (engine.run operations).framesPerSecond = engine.framesPerSecond :=
  keeps_of_run (fun later => later.framesPerSecond = engine.framesPerSecond) operations
    (fun operation _ before earlier => (before.rate_of_perform operation).trans earlier) rfl

/-- Whatever an engine has been through, its ids are distinct and indexed by their places, its
conditions are those of the formulas, no hits exceed their targets, and all generations of memory
have one size. As long as no state was restored, a condition is met exactly if its hits are enough. -/
theorem run_is_sound (framesPerSecond : UInt32) (view : RamView) (operations : List Operation) :
    let engine := (create framesPerSecond view).run operations
    engine.framesPerSecond = framesPerSecond ∧ engine.Sound ∧
      ((∀ operation ∈ operations, operation.isRestore = false) → engine.Tallied) := by
  intro engine
  refine ⟨rate_of_run _ operations, sound_run (sound_create framesPerSecond view) operations, ?_⟩
  intro progressing
  refine tallied_run ?_ progressing
  intro achievement member
  cases member

/-- Hits are counted, added by a neighbour and reset, memory shrinks and cannot be read, and one
formula takes the place of another. -/
def guardedRun : List Operation :=
  [.load "a" "0xH0=1(3)_C:0xH1=1_N:0xH2=1_T:0xH3=1", .load "b" "Z:0xH1=0_0xH0=1(2)",
    .frame (.readable ⟨#[1, 1, 0, 0]⟩), .load "a" "0xH0=1(3)_R:0xH1=1.2.",
    .frame (.unreadable 2 (.unavailable "gone")), .frame (.readable ⟨#[1]⟩),
    .powerOn (.readable ⟨#[0, 1]⟩), .frame (.readable ⟨#[1, 0]⟩)]

theorem guarded_run_is_tallied :
    (∀ operation ∈ guardedRun, operation.isRestore = false) ∧
      ((create 60 (.readable ⟨#[0, 0, 0, 0]⟩)).run guardedRun).Tallied := by
  have progressing : ∀ operation ∈ guardedRun, operation.isRestore = false := by decide
  exact ⟨progressing, (run_is_sound 60 _ guardedRun).2.2 progressing⟩

end Engine

end Achievements
