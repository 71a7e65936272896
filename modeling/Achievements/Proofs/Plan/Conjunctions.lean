import Achievements.Proofs.Plan.Alternatives
import Achievements.Proofs.Plan.Soundness

/-!
# Plans for conjunctions

Of a chain whose members have to hold together a plan makes every member true, as if each stood
alone. Hits are counted only while the whole chain holds, and a value that is compared with its
change need not be ahead of it on the very first frame. The plan does not wait for that frame:
`Plan.conjunction_plan_unlocks_iff` says when it succeeds, and `Plan.first_frame_is_missed` is a
formula for which it does not.
-/

set_option autoImplicit false

namespace Achievements

/-- A chain of which all members have to hold together. -/
structure Conjunction extends Chain where
  joined : ∀ clause ∈ group.links, clause.flag = .andNext

namespace Clause

/-- The clause outside any chain. -/
def unlinked (clause : Clause) : Clause :=
  { clause with flag := .plain }

/-! Nothing in a plan but the choice of clauses depends on their flags. -/

@[simp] theorem growing_of_unlinked (clause : Clause) :
    Plan.growing? clause.unlinked = Plan.growing? clause := rfl

@[simp] theorem solve_of_unlinked (clause : Clause) (desired : Bool) :
    Solver.solve clause.unlinked desired = Solver.solve clause desired := rfl

@[simp] theorem seed_of_unlinked (clause : Clause) :
    Plan.seed clause.unlinked = Plan.seed clause := rfl

@[simp] theorem ramp_of_unlinked (clause : Clause) (access : MemoryAccess) :
    Plan.ramp clause.unlinked access = Plan.ramp clause access := rfl

theorem ramps_of_unlinked (clauses : List Clause) :
    (clauses.map unlinked).filterMap (fun clause => (Plan.growing? clause).map (clause, ·)) =
      (clauses.filterMap fun clause => (Plan.growing? clause).map (clause, ·)).map
        fun grown => (grown.1.unlinked, grown.2) := by
  rw [List.filterMap_map, List.map_filterMap]
  apply List.filterMap_congr
  intro clause _
  rw [Option.map_map]
  rfl

@[simp] theorem largest_target_of_unlinked (clauses : List Clause) :
    Plan.largestTarget (clauses.map unlinked) = Plan.largestTarget clauses := by
  rw [Plan.largestTarget, List.map_map]
  rfl

theorem Grows.unlinked {clause : Clause} {access : MemoryAccess} {past : Modifiers}
    (grows : clause.Grows access past) : clause.unlinked.Grows access past :=
  ⟨grows.comparison, grows.left, grows.right, grows.unmodified, grows.integer, grows.aged,
    grows.attainable⟩

end Clause

/-- Before its first frame an engine has seen the memory that it was made on. -/
theorem Plan.prev_of_first_frame (clauses : List Clause) (history : History) (steps : List Step)
    {ram : Ram} (now : history.now = ram.bytes) :
    ((timeline clauses history steps ram).frames 0).prev = ram.bytes := by
  have kept : History.resizeBytes (ramAfter ram (steps.take 1)).size history.now = history.now := by
    apply History.resize_bytes_of_size
    rw [now, size_ram_after]
    rfl
  exact kept.trans now

/-- If a chain holds on all frames but perhaps the first, its hits lag behind by one at most. -/
theorem Chain.hits_of_later_holding (chain : Chain) (frames : Nat → History)
    (holding : ∀ frame, chain.holdsOn (frames (frame + 1)) = true) (count : Nat) :
    chain.hits frames (count + 1) = count + (chain.holdsOn (frames 0)).toNat := by
  induction count with
  | zero => rw [chain.hits_succ]; rfl
  | succ count ih =>
      rw [chain.hits_succ, ih, holding]
      exact Nat.add_right_comm _ _ _

namespace Conjunction

open Plan

variable (conjunction : Conjunction)

/-- The members, each on its own. -/
def apart : List Clause :=
  conjunction.group.members.map Clause.unlinked

theorem none_joined :
    (conjunction.group.members.any fun clause => clause.flag == .orNext) = false := by
  rw [List.any_eq_false]
  intro clause member
  rcases List.mem_append.mp member with link | last
  · rw [conjunction.joined clause link]
    decide
  · rw [List.mem_singleton.mp last, conjunction.plain]
    decide

theorem chosen_eq : chosen conjunction.group = conjunction.group.members := by
  rw [chosen, if_neg (Bool.eq_false_iff.mp conjunction.none_joined)]

theorem holds_on_iff (history : History) : conjunction.holdsOn history = true ↔
    ∀ clause ∈ conjunction.group.members, clause.holdsOn history = true := by
  rw [Chain.holdsOn, Sight.allHold, if_neg (Bool.eq_false_iff.mp conjunction.none_joined),
    List.all_eq_true]
  exact Iff.rfl

theorem plain_of_apart {clause : Clause} (member : clause ∈ conjunction.apart) :
    clause.flag = .plain := by
  obtain ⟨linked, _, rfl⟩ := List.mem_map.mp member
  rfl

theorem stands_alone : ∀ clause ∈ conjunction.apart, clause.flag.standsAlone = true := by
  intro clause member
  rw [conjunction.plain_of_apart member]
  rfl

theorem neutralizing_apart : neutralizing conjunction.apart = [] := by
  rw [neutralizing, List.filter_eq_nil_iff.mpr]
  · rfl
  · intro clause member
    rw [conjunction.plain_of_apart member]
    decide

theorem neutralize_steps_apart : neutralizeSteps conjunction.apart = [] := by
  rw [neutralizeSteps, conjunction.neutralizing_apart]
  rfl

theorem required_before_apart : requiredBefore conjunction.apart = conjunction.apart := by
  rw [Plan.required_before_eq conjunction.stands_alone, List.filter_eq_self]
  intro clause member
  rw [conjunction.plain_of_apart member]
  rfl

theorem triggers_apart : triggers conjunction.apart = [] := by
  rw [triggers, List.filter_eq_nil_iff]
  intro clause member
  rw [conjunction.plain_of_apart member]
  decide

theorem required_statics_apart : requiredStatics conjunction.apart =
    (requiredStatics conjunction.group.members).map Clause.unlinked := by
  rw [requiredStatics, requiredStatics, conjunction.required_before_apart,
    conjunction.required_before_eq, conjunction.chosen_eq, apart, List.filter_map]
  rfl

theorem required_ramps_apart : requiredRamps conjunction.apart =
    (requiredRamps conjunction.group.members).map fun grown => (grown.1.unlinked, grown.2) := by
  rw [requiredRamps, requiredRamps, conjunction.required_before_apart,
    conjunction.required_before_eq, conjunction.chosen_eq, apart, Clause.ramps_of_unlinked]

/-- The plan for a conjunction is the one for its members, each on its own. -/
theorem build_eq : build conjunction.group.members = build conjunction.apart := by
  have untriggered : requiredTriggers conjunction.apart = [] := by
    rw [Plan.required_triggers_eq conjunction.stands_alone, conjunction.triggers_apart]
  have total : rampTotal conjunction.apart = rampTotal conjunction.group.members := by
    rw [rampTotal, conjunction.required_ramps_apart, List.map_map]
    rfl
  simp [build, total, untriggered, conjunction.required_triggers_eq, conjunction.neutralizing_eq,
    conjunction.neutralizing_apart, conjunction.required_statics_apart,
    conjunction.required_ramps_apart, List.flatMap_map]

section Growing

variable {conjunction} {size : Nat} (layout : Layout size conjunction.group.members)
  {before after : List Clause} {grown : Clause} {access : MemoryAccess}
  (members : conjunction.group.members = before ++ grown :: after)
  (grows : grown.Grows access { delta := true })
  (solvable : ∀ clause ∈ before ++ after, ∃ access number,
    clause.ComparesInteger access number ∧ clause.CanBe access true)

include members in
theorem mem_members_iff (clause : Clause) : clause ∈ conjunction.group.members ↔
    clause = grown ∨ clause ∈ before ++ after := by
  rw [members, List.mem_append, List.mem_cons, or_left_comm, ← List.mem_append]

include solvable in
theorem still_others {clause : Clause} (member : clause ∈ before ++ after) :
    growing? clause = none := by
  obtain ⟨_, _, compares, _⟩ := solvable clause member
  exact compares.not_growing

include members grows solvable

theorem statics_eq : statics conjunction.apart = (before ++ after).map Clause.unlinked := by
  have others : (before ++ after).filter (fun clause => (growing? clause).isNone) =
      before ++ after := by
    rw [List.filter_eq_self]
    intro clause member
    rw [still_others solvable member]
    rfl
  rw [List.filter_append] at others
  rw [statics, apart, List.filter_map, members]
  have role : ((fun clause => clause.flag.isCounted && (growing? clause).isNone) ∘
      Clause.unlinked) = fun clause => (growing? clause).isNone := rfl
  rw [role, List.filter_append, List.filter_cons, grows.growing_eq, ← others]
  simp

theorem ramps_eq : ramps conjunction.apart = [(grown.unlinked, access)] := by
  have others : (before ++ after).filterMap (fun clause => (growing? clause).map (clause, ·)) =
      [] := by
    rw [List.filterMap_eq_nil_iff]
    intro clause member
    rw [still_others solvable member]
    rfl
  rw [List.filterMap_append, List.append_eq_nil_iff] at others
  rw [← Plan.required_ramps_eq conjunction.stands_alone, requiredRamps,
    conjunction.required_before_apart, apart, Clause.ramps_of_unlinked, members,
    List.filterMap_append, List.filterMap_cons, grows.growing_eq, others.1, others.2]
  rfl

theorem ramp_lengths_eq : rampLengths conjunction.apart = [Counter.cap grown.target] := by
  have recent : comparesPrior grown.unlinked = false := grows.compares_prior_eq
  have length : rampLength grown.unlinked = Counter.cap grown.target := by
    rw [rampLength, settling, recent]
    exact Nat.max_comm _ _
  rw [rampLengths, Plan.required_ramps_eq conjunction.stands_alone,
    ramps_eq members grows solvable, ← length]
  rfl

variable (bounded : grown.target < 4294967295)

include bounded

theorem sums_fit : sumsFit conjunction.apart = true := by
  rw [UInt32.lt_iff_toNat_lt] at bounded
  rw [sumsFit, ramp_lengths_eq members grows solvable, decide_eq_true_eq]
  change 1 + (0 + max 1 grown.target.toNat) < 4294967296
  change grown.target.toNat < 4294967295 at bounded
  omega

include layout in
theorem plannable : Plannable size conjunction.apart where
  layout := by
    constructor
    · intro clause member
      obtain ⟨linked, inMembers, rfl⟩ := List.mem_map.mp member
      exact layout.fits linked inMembers
    · rw [apart, List.pairwise_map]
      exact layout.apart
  flags := by
    intro clause member
    rw [conjunction.plain_of_apart member]
    decide
  planned := by
    intro clause member
    obtain ⟨linked, inMembers, rfl⟩ := List.mem_map.mp member
    rcases (mem_members_iff members linked).mp inMembers with rfl | other
    · exact .growing access _ grows.unlinked rfl
    · obtain ⟨operand, number, compares, possible⟩ := solvable linked other
      exact .static operand number ⟨compares.sides, compares.integer, compares.live⟩ possible
  sums := sums_fit members grows solvable bounded

include layout in
/-- The plan takes a step for what is constant and a ramp, or as long as anyone else asks for. -/
theorem length_build : (build conjunction.group.members).length =
    max (1 + Counter.cap grown.target) (largestTarget (before ++ after)) := by
  have plannable := plannable layout members grows solvable bounded
  have untriggered : triggerSteps conjunction.apart = [] := by
    rw [triggerSteps, conjunction.triggers_apart]
    rfl
  have total : (1 + rampTotal conjunction.apart).toNat = 1 + Counter.cap grown.target := by
    rw [ramp_total_of_fits plannable.sums, ramp_lengths_eq members grows solvable]
    exact congrArg (1 + ·) (Nat.zero_add _)
  have ramped : (rampSteps conjunction.apart).length = Counter.cap grown.target :=
    Nat.add_left_cancel (plannable.ramp_total_eq_length.symm.trans total)
  rw [conjunction.build_eq, Plan.length, build_steps conjunction.stands_alone,
    conjunction.neutralize_steps_apart, untriggered, holdSteps, total,
    statics_eq members grows solvable, Clause.largest_target_of_unlinked]
  simp only [List.length_append, List.length_nil, List.length_singleton, List.length_replicate,
    ramped]
  unfold Counter.cap
  omega

omit grows solvable bounded in
/-- One frame less than the plan has is enough, unless the member that counts asks for as many
frames as anyone else and for more than the ramp has. -/
theorem enough_iff (first : Bool) : Counter.cap conjunction.counting.target ≤
      max (1 + Counter.cap grown.target) (largestTarget (before ++ after)) - 1 + first.toNat ↔
    Counter.cap conjunction.counting.target ≤ Counter.cap grown.target ∨
      (∃ clause ∈ conjunction.group.members, conjunction.counting.target < clause.target) ∨
      first = true := by
  have split := mem_members_iff members
  have longer : (∃ clause ∈ conjunction.group.members,
      conjunction.counting.target < clause.target) ↔
        conjunction.counting.target.toNat < grown.target.toNat ∨
          conjunction.counting.target.toNat < largestTarget (before ++ after) := by
    rw [lt_largest_target_iff]
    simp only [split, UInt32.lt_iff_toNat_lt, or_and_right, exists_or, exists_eq_left]
  have counts : conjunction.counting = grown ∨
      conjunction.counting.target.toNat ≤ largestTarget (before ++ after) :=
    ((split _).mp (List.mem_of_getElem? conjunction.getElem?_counting)).imp_right le_largest_target
  rw [longer]
  unfold Counter.cap
  rcases counts with same | bounded
  · rw [same]
    omega
  · cases first with
    | false =>
        simp only [Bool.toNat_false, reduceCtorEq, or_false]
        omega
    | true =>
        simp only [Bool.toNat_true, or_true, iff_true]
        omega

variable (ram : Ram) (sized : ram.size = size) (history : History)

include sized layout

/-- The chain on the frames of its plan: from the second one on it holds, and on the first one if
the growing value is ahead at once. -/
theorem holds_on_frames (now : history.now = ram.bytes) :
    let frames := (timeline conjunction.apart history (build conjunction.group.members).steps
      ram).frames
    (∀ frame, conjunction.holdsOn (frames (frame + 1)) = true) ∧
      (conjunction.holdsOn (frames 0) = true ↔ grown.comparison = .ge ∨
        0 < access.encoding.readInteger (ram.contents access)) := by
  rw [conjunction.build_eq]
  intro frames
  have plannable := plannable layout members grows solvable bounded
  have others : ∀ clause ∈ before ++ after, ∀ frame, clause.holdsOn (frames frame) = true := by
    intro clause member frame
    have static : clause.unlinked ∈ statics conjunction.apart := by
      rw [statics_eq members grows solvable]
      exact List.mem_map_of_mem member
    apply plannable.static_holds sized history static
    rw [conjunction.neutralize_steps_apart]
    exact Nat.zero_le frame
  have all : ∀ frame, conjunction.holdsOn (frames frame) = true ↔
      grown.holdsOn (frames frame) = true := by
    intro frame
    rw [conjunction.holds_on_iff]
    constructor
    · intro holds
      exact holds grown ((mem_members_iff members grown).mpr (Or.inl rfl))
    · intro holds clause member
      rcases (mem_members_iff members clause).mp member with rfl | other
      · exact holds
      · exact others clause other frame
  have inRamps : (grown.unlinked, access) ∈ ramps conjunction.apart := by
    rw [ramps_eq members grows solvable]
    exact List.mem_singleton_self _
  constructor
  · intro frame
    apply (all _).mpr
    apply plannable.change_holds sized history inRamps grows.unlinked rfl
    rw [conjunction.neutralize_steps_apart]
    exact Nat.le_add_left 1 frame
  · have prev : (frames 0).prev = ram.bytes := prev_of_first_frame _ _ _ now
    rw [all, grows.holds_on_change rfl (now_of_frame _ _ _ _ 0) prev, grows.relates_change]

end Growing

end Conjunction

namespace Plan

/-- The plan for a conjunction in which one value grows and all others are compared with constants
unlocks it, unless the chain misses the first frame and has nobody to make up for that: the member
that counts asks for as many frames as anyone else, and for more than the ramp has. The frames of the
ramp and one more fit 32 bits. -/
theorem conjunction_plan_unlocks_iff {σ : Type} (framesPerSecond : UInt32) (id formula : String)
    (conjunction : Conjunction)
    (compiled : Formula.read framesPerSecond formula = conjunction.group.members)
    (console : Console σ) (layout : Layout console.ram.size conjunction.group.members)
    {before after : List Clause} {grown : Clause} {access : MemoryAccess}
    (members : conjunction.group.members = before ++ grown :: after)
    (grows : grown.Grows access { delta := true })
    (solvable : ∀ clause ∈ before ++ after, ∃ access number,
      clause.ComparesInteger access number ∧ clause.CanBe access true)
    (bounded : grown.target < 4294967295) :
    ((build conjunction.group.members).watch idle id console
        ((Engine.create framesPerSecond (.readable console.ram)).load id formula)).unlocked = true ↔
      Counter.cap conjunction.counting.target ≤ Counter.cap grown.target ∨
        (∃ clause ∈ conjunction.group.members, conjunction.counting.target < clause.target) ∨
        grown.comparison = .ge ∨ 0 < access.encoding.readInteger (console.ram.contents access) := by
  let engine := (Engine.create framesPerSecond (.readable console.ram)).load id formula
  let plan := build conjunction.group.members
  let frames := (timeline conjunction.apart engine.history plan.steps console.ram).frames
  have only : engine.achievements = [.fresh id formula conjunction.group.members] := by
    simp only [engine]
    rw [← compiled]
    rfl
  obtain ⟨later, first⟩ :=
    Conjunction.holds_on_frames layout members grows solvable bounded console.ram rfl engine.history
      rfl
  have length : plan.length =
      max (1 + Counter.cap grown.target) (largestTarget (before ++ after)) :=
    Conjunction.length_build layout members grows solvable bounded
  have hits : conjunction.hits frames plan.length =
      plan.length - 1 + (conjunction.holdsOn (frames 0)).toNat := by
    have positive : plan.length - 1 + 1 = plan.length := by omega
    rw [← positive]
    exact conjunction.hits_of_later_holding frames later _
  have enough := conjunction.unlocks_within_iff id formula frames plan.length
  rw [hits, length, conjunction.enough_iff members, first] at enough
  have watched := watch_unlocked_iff idle plan console only
  rw [seen_of_idle] at watched
  rw [← length] at enough
  exact watched.trans enough

/-- A byte of memory that is compared with its change. -/
def growingByte (flag : Flag) (address : UInt32) : Clause :=
  { flag, left := .memory { encoding := .byte, address }, comparison := .gt
    right := .memory { encoding := .byte, address, modifiers := { delta := true } } }

theorem growing_byte_grows (flag : Flag) (address : UInt32) :
    (growingByte flag address).Grows { encoding := .byte, address } { delta := true } where
  comparison := List.mem_cons_self
  left := rfl
  right := rfl
  unmodified := rfl
  integer := rfl
  aged := by decide
  attainable := fun same => absurd same (by decide)

/-- The first member counts and asks for two frames; the last one asks for three, and the plan lasts
as long. -/
def waitingCount : Conjunction where
  group :=
    ⟨[{ flag := .andNext, left := .memory { encoding := .byte, address := 1 }
        comparison := .eq, right := .constant (.int 1), target := 2 }, growingByte .andNext 2],
      { flag := .plain, left := .memory { encoding := .byte, address := 3 }
        comparison := .ge, right := .constant (.int 4), target := 3 }⟩
  linked := by decide
  plain := rfl
  joined := by decide

theorem waiting_count_unlocks :
    Formula.read 60 "N:0xH0001=1(2)_N:0xH0002>d0xH0002_0xH0003>=4(3)" =
        waitingCount.group.members ∧
      Layout zeroConsole.ram.size waitingCount.group.members ∧
      ((build waitingCount.group.members).watch idle "a" zeroConsole
        ((Engine.create 60 (.readable zeroConsole.ram)).load "a"
          "N:0xH0001=1(2)_N:0xH0002>d0xH0002_0xH0003>=4(3)")).unlocked = true := by
  have compiled : Formula.read 60 "N:0xH0001=1(2)_N:0xH0002>d0xH0002_0xH0003>=4(3)" =
      waitingCount.group.members := by
    with_unfolding_all rfl
  have layout : Layout zeroConsole.ram.size waitingCount.group.members := by decide
  have members : waitingCount.group.members =
      [_] ++ growingByte .andNext 2 :: [waitingCount.group.last] := rfl
  have longer : ∃ clause ∈ waitingCount.group.members,
      waitingCount.counting.target < clause.target := by decide
  refine ⟨compiled, layout, (conjunction_plan_unlocks_iff 60 "a" _ waitingCount compiled zeroConsole
    layout members (growing_byte_grows .andNext 2) ?_ (by decide)).mpr (Or.inr (Or.inl longer))⟩
  intro clause member
  simp only [waitingCount, List.cons_append, List.nil_append, List.mem_cons, List.not_mem_nil,
    or_false] at member
  rcases member with rfl | rfl
  · exact ⟨_, _, ⟨Or.inl ⟨rfl, rfl⟩, rfl, rfl⟩, [1], ⟨rfl, by decide⟩, by decide⟩
  · exact ⟨_, _, ⟨Or.inl ⟨rfl, rfl⟩, rfl, rfl⟩, [4], ⟨rfl, by decide⟩, by decide⟩

/-- The first member counts and asks for two frames. The plan lasts as long, but a byte that was
zero is not ahead of its change on the first of them. -/
def missedCount : Conjunction where
  group :=
    ⟨[{ flag := .andNext, left := .memory { encoding := .byte, address := 1 }
        comparison := .eq, right := .constant (.int 1), target := 2 }], growingByte .plain 2⟩
  linked := by decide
  plain := rfl
  joined := by decide

theorem first_frame_is_missed :
    Formula.read 60 "N:0xH0001=1(2)_0xH0002>d0xH0002" = missedCount.group.members ∧
      Layout zeroConsole.ram.size missedCount.group.members ∧
      missedCount.group.last.Grows { encoding := .byte, address := 2 } { delta := true } ∧
      (∀ clause ∈ missedCount.group.links, ∃ access number,
        clause.ComparesInteger access number ∧ clause.CanBe access true) ∧
      ((build missedCount.group.members).watch idle "a" zeroConsole
        ((Engine.create 60 (.readable zeroConsole.ram)).load "a"
          "N:0xH0001=1(2)_0xH0002>d0xH0002")).unlocked = false := by
  have compiled : Formula.read 60 "N:0xH0001=1(2)_0xH0002>d0xH0002" =
      missedCount.group.members := by
    with_unfolding_all rfl
  have layout : Layout zeroConsole.ram.size missedCount.group.members := by decide
  have fails : ((build missedCount.group.members).watch idle "a" zeroConsole
        ((Engine.create 60 (.readable zeroConsole.ram)).load "a"
          "N:0xH0001=1(2)_0xH0002>d0xH0002")).unlocked = false := by decide +kernel
  refine ⟨compiled, layout, growing_byte_grows .plain 2, ?_, fails⟩
  intro clause member
  simp only [missedCount, List.mem_cons, List.not_mem_nil, or_false] at member
  rw [member]
  exact ⟨_, _, ⟨Or.inl ⟨rfl, rfl⟩, rfl, rfl⟩, [1], ⟨rfl, by decide⟩, by decide⟩

end Plan

end Achievements
