import Achievements.Proofs.Plan.Growth
import Achievements.Proofs.Progress.Chains

/-!
# Plans for alternatives

Of a chain with alternatives a plan makes one member true, the easiest, and holds it for as many
frames as that member asks for. The hits however are those of the first member that has a target.
`Plan.alternative_plan_unlocks_iff` says that the plan succeeds exactly if the first number is enough
for the second, and `Plan.shorter_hold_fails` is a formula for which it is not.
-/

set_option autoImplicit false

namespace Achievements

namespace Chain

variable (chain : Chain)

/-- No trigger closes a chain, so what a plan chooses of it has to hold first. -/
theorem requirements_of_chosen : Plan.requirements chain.group.members =
    (Plan.chosen chain.group).map fun clause => ⟨clause, false⟩ := by
  have closed : chain.group.last.flag.isLink = false := by
    rw [chain.plain]
    rfl
  have split := Group.split_of_chain (fun clause : Clause => clause.flag.isLink) _ _
    chain.linked closed
  have required : Plan.requirementsOf chain.group =
      (Plan.chosen chain.group).map fun clause => ⟨clause, false⟩ := by
    rw [Plan.requirementsOf, chain.plain]
    rfl
  rw [Plan.requirements, Group.members, split, List.flatMap_singleton]
  exact required

theorem required_before_eq :
    Plan.requiredBefore chain.group.members = Plan.chosen chain.group := by
  rw [Plan.requiredBefore, chain.requirements_of_chosen, List.filter_eq_self.mpr, List.map_map]
  · exact List.map_id' _
  · intro requirement member
    obtain ⟨_, _, rfl⟩ := List.mem_map.mp member
    rfl

theorem required_triggers_eq : Plan.requiredTriggers chain.group.members = [] := by
  rw [Plan.requiredTriggers, chain.requirements_of_chosen, List.filter_eq_nil_iff.mpr]
  · rfl
  · intro requirement member
    obtain ⟨_, _, rfl⟩ := List.mem_map.mp member
    exact Bool.false_ne_true

theorem neutralizing_eq : Plan.neutralizing chain.group.members = [] := by
  have calm : chain.group.members.filter (·.flag.isDisruptive) = [] := by
    rw [List.filter_eq_nil_iff]
    intro clause member disruptive
    exact Bool.false_ne_true ((chain.calm member).symm.trans disruptive)
  rw [Plan.neutralizing, calm, List.flatMap_nil]

end Chain

/-- A chain of which one member is enough. -/
structure Alternatives extends Chain where
  joined : ∃ clause ∈ group.links, clause.flag = .orNext

namespace Plan

theorem easiest_mem (best : Clause) (clauses : List Clause) :
    easiest best clauses ∈ best :: clauses := by
  induction clauses generalizing best with
  | nil => exact List.mem_cons_self
  | cons clause clauses ih =>
      rw [easiest]
      split
      · exact List.mem_cons_of_mem _ (ih clause)
      · rcases List.mem_cons.mp (ih best) with same | later
        · rw [same]
          exact List.mem_cons_self
        · exact List.mem_cons_of_mem _ (List.mem_cons_of_mem _ later)

/-- If a watched run ended with an unlock, it is that of some achievement on some frame. -/
theorem unlocks_of_watch_steps {σ : Type} (stepper : FrameStepper σ) (id : String)
    (steps : List Step) (console : Console σ) (engine : Engine)
    (unlocked : (watchSteps stepper id steps console engine).unlocked = true) :
    ∃ achievement ∈ engine.achievements, ∃ frame < steps.length,
      achievement.unlocksOn (engine.history.watching (seen stepper steps console)) frame = true := by
  induction steps generalizing console engine with
  | nil => cases unlocked
  | cons step steps ih =>
      rw [watchSteps] at unlocked
      simp only at unlocked
      by_cases reported :
          reports id (engine.frame (.readable (step.play stepper console).ram)).2 = true
      · obtain ⟨other, inUnlocked, _⟩ := reports_iff.mp reported
        obtain ⟨achievement, member, unlocks, _⟩ := Engine.mem_unlocked_of_frame.mp inUnlocked
        exact ⟨achievement, member, 0, Nat.succ_pos _, unlocks⟩
      -- The run goes on with stepped achievements: their first frame is the second one of the
      -- loaded ones.
      · rw [if_neg reported] at unlocked
        obtain ⟨later, member, frame, below, unlocks⟩ := ih _ _ unlocked
        simp only [Engine.frame, List.map_map] at member
        obtain ⟨achievement, loaded, rfl⟩ := List.mem_map.mp member
        refine ⟨achievement, loaded, frame + 1, Nat.succ_lt_succ below, ?_⟩
        rw [Achievement.unlocks_on_first]
        simp only [History.watching_first]
        exact unlocks

/-- An engine with one achievement ends a watched run exactly if that unlocks on one of its frames. -/
theorem watch_unlocked_iff {σ : Type} (stepper : FrameStepper σ) (plan : Plan)
    (console : Console σ) {engine : Engine} {achievement : Achievement}
    (only : engine.achievements = [achievement]) :
    (plan.watch stepper achievement.id console engine).unlocked = true ↔
      ∃ frame < plan.length, achievement.unlocksOn
        (engine.history.watching (seen stepper plan.steps console)) frame = true := by
  constructor
  · intro unlocked
    obtain ⟨other, member, unlocks⟩ := unlocks_of_watch_steps _ _ _ _ _ unlocked
    rw [only, List.mem_singleton] at member
    rwa [member] at unlocks
  · rintro ⟨frame, below, unlocks⟩
    have member : achievement ∈ engine.achievements := by
      rw [only]
      exact List.mem_singleton_self _
    exact (watch_steps_unlocks stepper plan.steps console engine member frame below
      unlocks).unlocked

end Plan

namespace Alternatives

variable (alternatives : Alternatives)

/-- The member that a plan makes true. -/
def easiest : Clause :=
  match alternatives.group.members with
  | [] => alternatives.group.last
  | first :: rest => Plan.easiest first rest

theorem easiest_mem : alternatives.easiest ∈ alternatives.group.members := by
  unfold easiest
  cases members : alternatives.group.members with
  | nil =>
      rw [Group.members, List.append_eq_nil_iff] at members
      cases members.2
  | cons first rest => exact Plan.easiest_mem first rest

theorem any_joined :
    (alternatives.group.members.any fun clause => clause.flag == .orNext) = true := by
  obtain ⟨clause, member, flag⟩ := alternatives.joined
  rw [List.any_eq_true]
  exact ⟨clause, List.mem_append_left _ member, beq_iff_eq.mpr flag⟩

theorem chosen_eq : Plan.chosen alternatives.group = [alternatives.easiest] := by
  rw [Plan.chosen, if_pos alternatives.any_joined, easiest]
  cases members : alternatives.group.members with
  | nil =>
      rw [Group.members, List.append_eq_nil_iff] at members
      cases members.2
  | cons first rest => rfl

/-- The steps of the plan: the easiest member is made true and then held. -/
theorem build_steps (still : Plan.growing? alternatives.easiest = none) :
    (Plan.build alternatives.group.members).steps =
      { comment := "Satisfy static conditions"
        writes := Solver.solve alternatives.easiest true } ::
      List.replicate (Counter.cap alternatives.easiest.target - 1) { comment := "Hold" } := by
  have target : max (Plan.largestTarget [alternatives.easiest]) 1 =
      Counter.cap alternatives.easiest.target := by
    simp only [Plan.largestTarget, List.map_cons, List.map_nil, List.foldl_cons, List.foldl_nil,
      Nat.zero_max, Counter.cap, Nat.max_comm]
  have before : Plan.requiredBefore alternatives.group.members = [alternatives.easiest] := by
    rw [alternatives.required_before_eq, alternatives.chosen_eq]
  have statics : Plan.requiredStatics alternatives.group.members = [alternatives.easiest] := by
    simp [Plan.requiredStatics, before, still]
  have ramps : Plan.requiredRamps alternatives.group.members = [] := by
    simp [Plan.requiredRamps, before, still]
  have total : Plan.rampTotal alternatives.group.members = 0 := by
    rw [Plan.rampTotal, ramps]
    rfl
  simp [Plan.build, alternatives.neutralizing_eq, alternatives.required_triggers_eq, statics, ramps,
    total, target]

theorem length_build (still : Plan.growing? alternatives.easiest = none) :
    (Plan.build alternatives.group.members).length =
      Counter.cap alternatives.easiest.target := by
  rw [Plan.length, alternatives.build_steps still, List.length_cons, List.length_replicate]
  unfold Counter.cap
  omega

/-- The chain holds from the first step on. -/
theorem holds_on_frames {access : MemoryAccess} {number : Int64}
    (compares : alternatives.easiest.ComparesInteger access number)
    (possible : alternatives.easiest.CanBe access true) {ram : Ram} (fits : access.Fits ram.size)
    (history : History) (frame : Nat) :
    alternatives.holdsOn (history.watching (fun frame => Plan.ramAfter ram
      ((Plan.build alternatives.group.members).steps.take (frame + 1))) frame) = true := by
  have easiestHolds : alternatives.easiest.holdsOn (history.watching (fun frame =>
      Plan.ramAfter ram ((Plan.build alternatives.group.members).steps.take (frame + 1)))
      frame) = true := by
    rw [compares.holds_on (history.now_of_watching _ frame),
      alternatives.build_steps compares.not_growing, ← List.singleton_append]
    -- The steps that hold write nothing, so what the first one has made true stays true.
    have keeps : ∀ step ∈ List.replicate (Counter.cap alternatives.easiest.target - 1)
        ({ comment := "Hold" } : Step), step.Keeps ram.size access fun bytes =>
          alternatives.easiest.outcome (access.valueOf bytes) = true := by
      intro step member ram _ before
      rw [List.eq_of_mem_replicate member]
      exact before
    refine Plan.keeps_on_frames ram _ _ keeps ?_ (frame + 1) (Nat.succ_le_succ (Nat.zero_le frame))
    rw [Plan.ram_after_step]
    exact compares.outcome_solve ram fits possible
  rw [Chain.holdsOn, Sight.allHold, if_pos alternatives.any_joined, List.any_eq_true]
  exact ⟨alternatives.easiest, alternatives.easiest_mem, easiestHolds⟩

end Alternatives

namespace Plan

/-- The plan for a chain with alternatives unlocks it exactly if the easiest member asks for no fewer
frames than the member that counts. -/
theorem alternative_plan_unlocks_iff {σ : Type} (framesPerSecond : UInt32) (id formula : String)
    (alternatives : Alternatives)
    (compiled : Formula.read framesPerSecond formula = alternatives.group.members)
    (console : Console σ) (layout : Layout console.ram.size alternatives.group.members)
    (solvable : ∀ clause ∈ alternatives.group.members, ∃ access number,
      clause.ComparesInteger access number ∧ clause.CanBe access true) :
    ((build alternatives.group.members).watch idle id console
        ((Engine.create framesPerSecond (.readable console.ram)).load id formula)).unlocked = true ↔
      Counter.cap alternatives.counting.target ≤ Counter.cap alternatives.easiest.target := by
  obtain ⟨access, number, compares, possible⟩ := solvable _ alternatives.easiest_mem
  have fits := layout.fits _ alternatives.easiest_mem access compares.mem_accesses
  have only : ((Engine.create framesPerSecond (.readable console.ram)).load id formula).achievements =
      [.fresh id formula alternatives.group.members] := by
    rw [← compiled]
    rfl
  have holding := alternatives.holds_on_frames compares possible fits
  refine (watch_unlocked_iff idle _ console only).trans ?_
  rw [seen_of_idle, alternatives.unlocks_within_iff,
    alternatives.hits_of_holding _ fun frame _ => holding _ frame,
    alternatives.length_build compares.not_growing]

def zeroConsole : Console Unit :=
  ⟨.zeroed 8, ()⟩

/-- The second member is the easiest and asks for three frames, the first one counts and asks for
two. -/
def longerHold : Alternatives where
  group :=
    ⟨[{ flag := .orNext, left := .memory { encoding := .byte, address := 1 }
        comparison := .gt, right := .constant (.int 1), target := 2 }],
      { flag := .plain, left := .memory { encoding := .byte, address := 2 }
        comparison := .eq, right := .constant (.int 2), target := 3 }⟩
  linked := by decide
  plain := rfl
  joined := by decide

theorem longer_hold_unlocks :
    Formula.read 60 "O:0xH0001>1(2)_0xH0002=2(3)" = longerHold.group.members ∧
      Layout zeroConsole.ram.size longerHold.group.members ∧
      ((build longerHold.group.members).watch idle "a" zeroConsole
        ((Engine.create 60 (.readable zeroConsole.ram)).load "a"
          "O:0xH0001>1(2)_0xH0002=2(3)")).unlocked = true := by
  have compiled : Formula.read 60 "O:0xH0001>1(2)_0xH0002=2(3)" = longerHold.group.members := by
    with_unfolding_all rfl
  have layout : Layout zeroConsole.ram.size longerHold.group.members := by decide
  refine ⟨compiled, layout, (alternative_plan_unlocks_iff 60 "a" _ longerHold compiled zeroConsole
    layout ?_).mpr (by decide)⟩
  intro clause member
  simp only [longerHold, Group.members, List.cons_append, List.nil_append, List.mem_cons,
    List.not_mem_nil, or_false] at member
  rcases member with rfl | rfl
  · exact ⟨_, _, ⟨Or.inl ⟨rfl, rfl⟩, rfl, rfl⟩, [2], ⟨rfl, by decide⟩, by decide⟩
  · exact ⟨_, _, ⟨Or.inl ⟨rfl, rfl⟩, rfl, rfl⟩, [2], ⟨rfl, by decide⟩, by decide⟩

/-- Both members are as easy, so the first one is made true, for one frame; the second one counts and
asks for two. -/
def shorterHold : Alternatives where
  group :=
    ⟨[{ flag := .orNext, left := .memory { encoding := .byte, address := 1 }
        comparison := .eq, right := .constant (.int 1) }],
      { flag := .plain, left := .memory { encoding := .byte, address := 2 }
        comparison := .eq, right := .constant (.int 2), target := 2 }⟩
  linked := by decide
  plain := rfl
  joined := by decide

theorem shorter_hold_fails :
    Formula.read 60 "O:0xH0001=1_0xH0002=2(2)" = shorterHold.group.members ∧
      Layout zeroConsole.ram.size shorterHold.group.members ∧
      (∀ clause ∈ shorterHold.group.members, ∃ access number,
        clause.ComparesInteger access number ∧ clause.CanBe access true) ∧
      ((build shorterHold.group.members).watch idle "a" zeroConsole
        ((Engine.create 60 (.readable zeroConsole.ram)).load "a"
          "O:0xH0001=1_0xH0002=2(2)")).unlocked = false := by
  refine ⟨by with_unfolding_all rfl, by decide, ?_, by decide +kernel⟩
  intro clause member
  simp only [shorterHold, Group.members, List.cons_append, List.nil_append, List.mem_cons,
    List.not_mem_nil, or_false] at member
  rcases member with rfl | rfl
  · exact ⟨_, _, ⟨Or.inl ⟨rfl, rfl⟩, rfl, rfl⟩, [1], ⟨rfl, by decide⟩, by decide⟩
  · exact ⟨_, _, ⟨Or.inl ⟨rfl, rfl⟩, rfl, rfl⟩, [2], ⟨rfl, by decide⟩, by decide⟩

end Plan

end Achievements
