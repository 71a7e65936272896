import Achievements.Proofs.Plan.Solving
import Achievements.Proofs.Plan.Sums
import Achievements.Proofs.Plan.Watching

/-!
# The steps of a plan and the cells they write

For formulas in which every clause stands alone, `Plan.build_steps` gives the steps of a plan by the
flags of the clauses. In a `Layout` different clauses have different cells, so a step that is made
for some clauses spares all others; what holds of the bytes of an operand is then kept by every step
that is not its own.
-/

set_option autoImplicit false

namespace Achievements

namespace Clause

def accesses (clause : Clause) : List MemoryAccess :=
  clause.left.memory?.toList ++ clause.right.memory?.toList

/-- The cells that a clause reads in memory of a given size. -/
def cells (size : Nat) (clause : Clause) : List Nat :=
  clause.accesses.flatMap (MemoryAccess.cells size)

def Apart (size : Nat) (clause other : Clause) : Prop :=
  ∀ cell ∈ clause.cells size, cell ∉ other.cells size

instance (size : Nat) (clause other : Clause) : Decidable (clause.Apart size other) :=
  inferInstanceAs (Decidable (∀ cell ∈ clause.cells size, cell ∉ other.cells size))

theorem Apart.symm {size : Nat} {clause other : Clause} (apart : clause.Apart size other) :
    other.Apart size clause :=
  fun cell inOther inClause => apart cell inClause inOther

theorem mem_cells {size : Nat} {clause : Clause} {access : MemoryAccess}
    (member : access ∈ clause.accesses) {cell : Nat} (inAccess : cell ∈ access.cells size) :
    cell ∈ clause.cells size :=
  List.mem_flatMap.mpr ⟨access, member, inAccess⟩

theorem ComparesInteger.mem_accesses {clause : Clause} {access : MemoryAccess} {number : Int64}
    (compares : clause.ComparesInteger access number) : access ∈ clause.accesses := by
  rcases compares.sides with ⟨left, right⟩ | ⟨left, right⟩ <;>
    simp [accesses, left, right, Operand.memory?]

end Clause

/-- Clauses whose operands fit memory of a given size and have no cell in common. -/
structure Layout (size : Nat) (clauses : List Clause) : Prop where
  fits : ∀ clause ∈ clauses, ∀ access ∈ clause.accesses, access.Fits size
  apart : clauses.Pairwise (Clause.Apart size)

instance (size : Nat) (clauses : List Clause) : Decidable (Layout size clauses) :=
  decidable_of_iff ((∀ clause ∈ clauses, ∀ access ∈ clause.accesses, access.Fits size) ∧
    clauses.Pairwise (Clause.Apart size)) ⟨fun both => ⟨both.1, both.2⟩,
      fun layout => ⟨layout.fits, layout.apart⟩⟩

theorem Layout.apart_of_ne {size : Nat} {clauses : List Clause} (layout : Layout size clauses)
    {clause other : Clause} (member : clause ∈ clauses) (otherMember : other ∈ clauses)
    (different : clause ≠ other) : clause.Apart size other := by
  obtain ⟨before, after, rfl⟩ := List.append_of_mem member
  have apart := List.pairwise_append.mp layout.apart
  rcases List.mem_append.mp otherMember with earlier | later
  · exact (apart.2.2 other earlier clause List.mem_cons_self).symm
  · rcases List.mem_cons.mp later with rfl | behind
    · exact absurd rfl different
    · exact (List.pairwise_cons.mp apart.2.1).1 other behind

namespace Step

/-- Does a step leave an operand alone? -/
def Spares (size : Nat) (access : MemoryAccess) (step : Step) : Prop :=
  ∀ write ∈ step.writes, write.cell size ∉ access.cells size

/-- Is what holds of the bytes of an operand before a step still so after it? -/
def Keeps (size : Nat) (access : MemoryAccess) (property : List UInt8 → Prop) (step : Step) :
    Prop :=
  ∀ ram : Ram, ram.size = size → property (ram.contents access) →
    property ((ram.write step.writes).contents access)

theorem keeps_of_spares {size : Nat} {access : MemoryAccess} {step : Step}
    (spares : step.Spares size access) (property : List UInt8 → Prop) :
    step.Keeps size access property := by
  intro ram sized before
  subst sized
  rwa [ram.contents_write_of_apart step.writes access spares]

end Step

namespace Ram

/-- Of writes made for one item after another, those for one item are the last that matter to an
operand which the later ones leave alone. -/
theorem contents_write_flat_map {α : Type} (ram : Ram) (writes : α → List ByteWrite)
    (earlier later : List α) (item : α) (access : MemoryAccess)
    (apart : ∀ other ∈ later, ∀ write ∈ writes other, write.cell ram.size ∉ access.cells ram.size) :
    (ram.write ((earlier ++ item :: later).flatMap writes)).contents access =
      ((ram.write (earlier.flatMap writes)).write (writes item)).contents access := by
  rw [List.flatMap_append, List.flatMap_cons, write_append, write_append]
  apply contents_write_of_apart
  intro write member
  obtain ⟨other, inLater, made⟩ := List.mem_flatMap.mp member
  simp only [size_write]
  exact apart other inLater write made

end Ram

namespace Layout

variable {clauses : List Clause} {ram : Ram} (layout : Layout ram.size clauses)
  {role : Clause → Bool} {desired : Bool}
  (owned : ∀ clause ∈ clauses.filter role, ∀ write ∈ Solver.solve clause desired,
    write.cell ram.size ∈ clause.cells ram.size)

include layout owned

/-- A clause that is solved together with others comes out as desired. -/
theorem outcome_of_solving {clause : Clause} (member : clause ∈ clauses.filter role)
    {access : MemoryAccess} {number : Int64} (compares : clause.ComparesInteger access number)
    (possible : clause.CanBe access desired) :
    clause.outcome (access.valueOf ((ram.write
      ((clauses.filter role).flatMap (Solver.solve · desired))).contents access)) = desired := by
  have apart := layout.apart.filter role
  have fits := layout.fits clause (List.mem_filter.mp member).1 access compares.mem_accesses
  obtain ⟨before, after, split⟩ := List.append_of_mem member
  rw [split] at apart owned ⊢
  -- Clauses that are solved later have other cells, so what the own writes left is still there.
  have later := (List.pairwise_cons.mp (List.pairwise_append.mp apart).2.1).1
  rw [ram.contents_write_flat_map _ before after clause access (by
    intro other inAfter write made inAccess
    have inFilter := List.mem_append_right before (List.mem_cons_of_mem clause inAfter)
    have inOther := owned other inFilter write made
    exact later other inAfter _ (Clause.mem_cells compares.mem_accesses inAccess) inOther)]
  exact compares.outcome_solve _ (by rwa [Ram.size_write]) possible

/-- A clause keeps its bytes while others are solved. -/
theorem contents_of_solving {clause : Clause} (member : clause ∈ clauses)
    (other : role clause = false) {access : MemoryAccess} (own : access ∈ clause.accesses) :
    (ram.write ((clauses.filter role).flatMap (Solver.solve · desired))).contents access =
      ram.contents access := by
  apply ram.contents_write_of_apart
  intro write made inAccess
  obtain ⟨solved, inFilter, solving⟩ := List.mem_flatMap.mp made
  obtain ⟨inClauses, plays⟩ := List.mem_filter.mp inFilter
  have different : solved ≠ clause := by
    rintro rfl
    rw [plays] at other
    cases other
  exact layout.apart_of_ne inClauses member different _ (owned solved inFilter write solving)
    (Clause.mem_cells own inAccess)

end Layout

namespace Plan

theorem ram_after_append (ram : Ram) (earlier later : List Step) :
    ramAfter ram (earlier ++ later) = ramAfter (ramAfter ram earlier) later := by
  rw [ramAfter, List.flatMap_append, Ram.write_append]
  rfl

theorem ram_after_step (ram : Ram) (step : Step) :
    ramAfter ram [step] = ram.write step.writes := by
  rw [ramAfter, List.flatMap_singleton]

/-- What every step keeps, all of them keep. -/
theorem keeps_of_steps {access : MemoryAccess} {property : List UInt8 → Prop} (ram : Ram)
    (steps : List Step) (keeps : ∀ step ∈ steps, step.Keeps ram.size access property)
    (initially : property (ram.contents access)) :
    property ((ramAfter ram steps).contents access) := by
  induction steps generalizing ram with
  | nil => exact initially
  | cons step steps ih =>
      have first := keeps step List.mem_cons_self ram rfl initially
      have rest := ih (ram.write step.writes) (by
        intro other member
        rw [Ram.size_write]
        exact keeps other (List.mem_cons_of_mem _ member)) first
      rw [ramAfter, List.flatMap_cons, Ram.write_append]
      exact rest

/-- What some steps have made true stays true on every later frame if all other steps keep it. -/
theorem keeps_on_frames {access : MemoryAccess} {property : List UInt8 → Prop} (ram : Ram)
    (earlier later : List Step) (keeps : ∀ step ∈ later, step.Keeps ram.size access property)
    (made : property ((ramAfter ram earlier).contents access)) (count : Nat)
    (after : earlier.length ≤ count) :
    property ((ramAfter ram ((earlier ++ later).take count)).contents access) := by
  rw [List.take_append, List.take_of_length_le after, ram_after_append]
  apply keeps_of_steps _ _ _ made
  intro step member
  rw [size_ram_after]
  exact keeps step (List.mem_of_mem_take member)

/-- The writes that give a growing value its seed. -/
def seedWrites (grown : Clause × MemoryAccess) : List ByteWrite :=
  Solver.writesOfValue grown.2 (seed grown.1)

def rampOf (grown : Clause × MemoryAccess) : List Step :=
  ramp grown.1 grown.2

section Build

variable (clauses : List Clause)

/-- The clauses that one step satisfies. -/
def statics : List Clause :=
  clauses.filter fun clause => clause.flag.isCounted && (growing? clause).isNone

/-- The clauses that take a ramp, with the operands that grow. -/
def ramps : List (Clause × MemoryAccess) :=
  (clauses.filter (·.flag.isCounted)).filterMap fun clause => (growing? clause).map (clause, ·)

def triggers : List Clause :=
  clauses.filter (·.flag == .trigger)

def neutralizeSteps : List Step :=
  if (neutralizing clauses).isEmpty then []
  else [{ comment := "Neutralize pause/reset conditions", writes := neutralizing clauses }]

def satisfyStep : Step :=
  { comment := "Satisfy static conditions"
    writes := (statics clauses).flatMap (Solver.solve · true) ++
      (ramps clauses).flatMap seedWrites }

def rampSteps : List Step :=
  (ramps clauses).flatMap rampOf

def holdSteps : List Step :=
  List.replicate (max (largestTarget (statics clauses)) 1 - (1 + rampTotal clauses).toNat)
    { comment := "Hold" }

def triggerStep : Step :=
  { comment := "Satisfy triggers", writes := (triggers clauses).flatMap (Solver.solve · true) }

def triggerSteps : List Step :=
  if (triggers clauses).isEmpty then []
  else triggerStep clauses ::
    List.replicate (largestTarget (triggers clauses) - 1) { comment := "Hold triggers" }

variable {clauses} (alone : ∀ clause ∈ clauses, clause.flag.standsAlone = true)

include alone

theorem requirements_of_standing_alone :
    requirements clauses = (clauses.filter fun clause => isRequired clause.flag).map fun clause =>
      ⟨clause, clause.flag == .trigger⟩ := by
  have single : ∀ clause ∈ clauses, requirementsOf ⟨[], clause⟩ =
      if isRequired clause.flag then [⟨clause, clause.flag == .trigger⟩] else [] := by
    intro clause member
    have unlinked : (clause.flag == .orNext) = false := by
      have flag := alone clause member
      cases same : clause.flag <;> rw [same] at flag <;> first | rfl | cases flag
    simp [requirementsOf, chosen, Group.members, unlinked]
  rw [requirements, Group.split_of_no_links _ _ fun clause member =>
    Flag.not_link_of_stands_alone (alone clause member)]
  clear alone
  induction clauses with
  | nil => rfl
  | cons clause rest ih =>
      have later := ih fun other member => single other (List.mem_cons_of_mem _ member)
      rw [List.map_cons, List.flatMap_cons, later, single clause List.mem_cons_self,
        List.filter_cons]
      split <;> rfl

theorem required_triggers_eq : requiredTriggers clauses = triggers clauses := by
  rw [requiredTriggers, requirements_of_standing_alone alone, List.filter_map, List.map_map,
    triggers]
  simp only [Function.comp_def, List.filter_filter, List.map_id']
  apply List.filter_congr
  intro clause _
  cases clause.flag <;> rfl

theorem required_before_eq : requiredBefore clauses = clauses.filter (·.flag.isCounted) := by
  rw [requiredBefore, requirements_of_standing_alone alone, List.filter_map, List.map_map]
  simp only [Function.comp_def, List.filter_filter, List.map_id']
  apply List.filter_congr
  intro clause member
  have flag := alone clause member
  cases same : clause.flag <;> rw [same] at flag <;> first | rfl | cases flag

theorem required_statics_eq : requiredStatics clauses = statics clauses := by
  rw [requiredStatics, required_before_eq alone, List.filter_filter, statics]
  exact List.filter_congr fun clause _ => Bool.and_comm _ _

theorem required_ramps_eq : requiredRamps clauses = ramps clauses := by
  rw [requiredRamps, required_before_eq alone, ramps]

/-- The steps of a plan, by the flags of the clauses that they are made for. -/
theorem build_steps :
    (build clauses).steps = neutralizeSteps clauses ++ [satisfyStep clauses] ++
      rampSteps clauses ++ holdSteps clauses ++ triggerSteps clauses := by
  simp only [build, required_triggers_eq alone, required_statics_eq alone, required_ramps_eq alone,
    neutralizeSteps, satisfyStep, rampSteps, holdSteps, triggerSteps, triggerStep,
    List.append_assoc, List.cons_append, List.nil_append]
  rfl

end Build

end Plan

end Achievements
