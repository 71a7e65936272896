import Achievements.Formula.Group
import Achievements.Plan.Solver

/-!
# Building plans

A plan that should unlock a formula. Pauses and resets are made false first. One step then makes
everything true that does not compare a value with its own past. A comparison of the form "the value
has grown" takes a ramp of steps, one for each hit. Empty steps let the hits of the rest add up, and
the triggers come last. Frames are counted with 32 bits. `Plan.build?` is the plan as far as there is
one.
-/

set_option autoImplicit false

namespace Achievements.Plan

/-- A clause that has to hold, either before the triggers count or as one of them. -/
structure Requirement where
  clause : Clause
  isTrigger : Bool

/-- Does a group have to hold that is closed by a clause with this flag? -/
def isRequired : Flag → Bool
  | .plain | .measured | .measuredPercent | .trigger | .andNext | .orNext => true
  | .pauseIf | .resetIf | .resetNextIf | .addSource | .subSource | .addAddress | .addHits
  | .subHits | .measuredIf | .remember => false

/-- Is a value compared with its own past in a way that it meets by growing? The value is given. -/
def growing? (clause : Clause) : Option MemoryAccess :=
  match clause.left, clause.right with
  | .memory left, .memory right =>
      let grows := match clause.comparison with
        | .gt | .ne | .ge => true
        | _ => false
      if grows && left.isLive && !right.isLive && left.samePlace right then some left else none
  | _, _ => none

/-- Is the past meant the one two frames ago? -/
def comparesPrior (clause : Clause) : Bool :=
  match clause.right.memory? with
  | some access => access.modifiers.prior && !access.modifiers.delta
  | none => false

/-- How easily a clause can be made to hold. -/
def ease (clause : Clause) : Int :=
  let withConstant := match clause.left, clause.right with
    | .memory _, .constant _ => 5
    | _, _ => 0
  let equality := if clause.comparison = .eq then 2 else 0
  let live := if (clause.left.memory?.map MemoryAccess.isLive).getD false then 1 else 0
  let past := if (clause.right.memory?.map fun access => !access.isLive).getD false then 1 else 0
  withConstant + equality + live - past

/-- The easiest of some clauses; of equals the first. -/
def easiest (best : Clause) : List Clause → Clause
  | [] => best
  | clause :: rest => easiest (if ease best < ease clause then clause else best) rest

/-- The members of a group that a plan makes true: all of them, or the easiest one if any of them is
joined by `orNext`. -/
def chosen (group : Group Clause) : List Clause :=
  if group.members.any fun clause => clause.flag == .orNext then
    match group.members with
    | [] => []
    | first :: rest => [easiest first rest]
  else group.members

/-- The requirements of one group. -/
def requirementsOf (group : Group Clause) : List Requirement :=
  let flag := group.last.flag
  if isRequired flag then (chosen group).map fun clause => ⟨clause, flag == .trigger⟩ else []

/-- All requirements of a formula. -/
def requirements (clauses : List Clause) : List Requirement :=
  (Group.split (fun clause : Clause => clause.flag.isLink) clauses).flatMap requirementsOf

/-- The writes that make all pauses and resets false. -/
def neutralizing (clauses : List Clause) : List ByteWrite :=
  (clauses.filter fun clause => clause.flag.isDisruptive).flatMap (Solver.solve · false)

/-- The value that a growing value starts from. One two frames old is compared with nothing from
before the plan if the ramp starts from zero and stays there for a frame. -/
def seed (clause : Clause) : Int :=
  if comparesPrior clause then 0 else 1

/-- The number of frames of a ramp on which the value has not grown yet. -/
def settling (clause : Clause) : Nat :=
  if comparesPrior clause then 1 else 0

/-- The number of frames that a ramp takes. -/
def rampLength (clause : Clause) : Nat :=
  max clause.target.toNat 1 + settling clause

/-- The number of frames that a ramp is given. The sum has 32 bits and may wrap around. -/
def rampCount (clause : Clause) : UInt32 :=
  max clause.target 1 + UInt32.ofNat (settling clause)

/-- The value on a frame of a ramp. It grows up to the largest one that it can have. -/
def rampValue (clause : Clause) (access : MemoryAccess) (index : Nat) : Int :=
  min (1 + (index : Int) - settling clause) access.encoding.maximum

/-- The steps on which a value grows. -/
def ramp (clause : Clause) (access : MemoryAccess) : List Step :=
  (List.range (rampCount clause).toNat).map fun (index : Nat) =>
    { comment := String.ofList ("Ramp ".toList ++ access.describe ++ " (".toList ++
        Text.decimal (index + 1) ++ '/' :: Text.decimal (rampCount clause).toNat ++ [')'])
      writes := Solver.writesOfValue access (rampValue clause access index) }

/-- Does it come to an end to encode the values of a ramp, and the one that it starts from? -/
def isRamped (platform : Platform) (clause : Clause) (access : MemoryAccess) : Bool :=
  (seed clause :: (List.range (rampCount clause).toNat).map (rampValue clause access)).all
    (Solver.isGiven platform access)

/-- The largest number of hits that any clause asks for. -/
def largestTarget (clauses : List Clause) : Nat :=
  (clauses.map fun clause => clause.target.toNat).foldl max 0

section

variable (clauses : List Clause)

/-- The triggers that a plan makes true. -/
def requiredTriggers : List Clause :=
  ((requirements clauses).filter (·.isTrigger)).map (·.clause)

/-- What a plan makes true before the triggers count. -/
def requiredBefore : List Clause :=
  ((requirements clauses).filter (!·.isTrigger)).map (·.clause)

/-- What a plan makes true in one step, before the triggers count. -/
def requiredStatics : List Clause :=
  (requiredBefore clauses).filter fun clause => (growing? clause).isNone

/-- What takes a ramp, with the operands that grow. -/
def requiredRamps : List (Clause × MemoryAccess) :=
  (requiredBefore clauses).filterMap fun clause => (growing? clause).map (clause, ·)

/-- The frames that the ramps take. -/
def rampLengths : List Nat :=
  (requiredRamps clauses).map fun (clause, _) => rampLength clause

/-- The number of frames of all ramps. The sum has 32 bits and may wrap around. -/
def rampTotal : UInt32 :=
  ((requiredRamps clauses).map fun (clause, _) => rampCount clause).foldl (· + ·) 0

/-- Do the sums of frames fit 32 bits? The last one adds one to the frames of all ramps. -/
def sumsFit : Bool :=
  1 + (rampLengths clauses).foldl (· + ·) 0 < 4294967296

/-- Does it come to an end to encode what a plan writes? -/
def isSolved (platform : Platform) : Bool :=
  (clauses.filter (·.flag.isDisruptive)).all (Solver.isSolved platform · false) &&
    (requiredStatics clauses).all (Solver.isSolved platform · true) &&
      ((requiredRamps clauses).all fun (clause, access) => isRamped platform clause access) &&
        (requiredTriggers clauses).all (Solver.isSolved platform · true)

/-- The plan for a formula, once it is built. -/
def build : Plan :=
  let statics := requiredStatics clauses
  let ramps := requiredRamps clauses
  let triggers := requiredTriggers clauses
  let neutralizeWrites := neutralizing clauses
  let neutralize : List Step :=
    if neutralizeWrites.isEmpty then []
    else [{ comment := "Neutralize pause/reset conditions", writes := neutralizeWrites }]
  let satisfy : Step :=
    { comment := "Satisfy static conditions"
      writes := statics.flatMap (Solver.solve · true) ++
        ramps.flatMap fun (clause, access) => Solver.writesOfValue access (seed clause) }
  let rampSteps := ramps.flatMap fun (clause, access) => ramp clause access
  let held := max (largestTarget statics) 1 - (1 + rampTotal clauses).toNat
  let trigger : List Step :=
    if triggers.isEmpty then []
    else
      { comment := "Satisfy triggers", writes := triggers.flatMap (Solver.solve · true) } ::
        List.replicate (largestTarget triggers - 1) { comment := "Hold triggers" }
  ⟨neutralize ++ satisfy :: rampSteps ++ List.replicate held { comment := "Hold" } ++ trigger⟩

/-- The plan for a formula, unless there is none: what it writes may take forever to encode, and its
sums may break off if they are checked. -/
def build? (platform : Platform) : Option Plan :=
  if isSolved clauses platform && (sumsFit clauses || !platform.checksSums) then
    some (build clauses)
  else none

end

end Achievements.Plan
