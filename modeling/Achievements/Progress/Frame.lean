import Achievements.Formula.Group
import Achievements.Memory.History
import Achievements.Progress.Achievement

/-!
# One frame of an achievement

`Achievement.step` lets one frame pass. If a pause holds, nothing happens. Otherwise the groups of
the formula are visited from left to right: accumulators feed the next comparison, resets throw all
progress away, comparisons count hits, and triggers are put off. When everything that was visited is
met, the triggers count as well, and if these are met too the achievement unlocks. Otherwise the
measured progress is published.

The visit is a fold over the groups, so a statement about all formulas is one about a single group.
-/

set_option autoImplicit false

namespace Achievements

/-- What has been accumulated for the next comparison. -/
structure Accumulated where
  source : Number := .zero
  bias : Int64 := 0
  deriving Inhabited

/-- What an operand can refer to: the last three frames, and the remembered value. -/
structure Sight where
  history : History
  remembered : Option Number

namespace Sight

/-- The value of an operand at addresses moved by a bias. -/
def value (sight : Sight) (operand : Operand) (bias : Int64) : Number :=
  match operand with
  | .memory access => sight.history.read access bias
  | .constant value => value
  | .recall => sight.remembered.getD .zero

/-- The left side of a comparison, with what was accumulated for it. -/
def left (sight : Sight) (clause : Clause) (accumulated : Accumulated) : Number :=
  sight.value clause.left accumulated.bias + accumulated.source

/-- Does the comparison of a clause hold? -/
def holds (sight : Sight) (clause : Clause) (accumulated : Accumulated) : Bool :=
  clause.comparison.holds
    ((sight.left clause accumulated).compare (sight.value clause.right accumulated.bias))

/-- Do the clauses of a group hold together? One is enough if any of them is joined by `orNext`. -/
def allHold (sight : Sight) (clauses : List Clause) (accumulated : Accumulated) : Bool :=
  if clauses.any fun clause => clause.flag == .orNext then
    clauses.any fun clause => sight.holds clause accumulated
  else clauses.all fun clause => sight.holds clause accumulated

end Sight

/-- A group whose truth is settled only after the visit. -/
structure Postponed where
  clauses : List Clause
  accumulated : Accumulated

/-- A condition that was visited, and the group that it counts for if that was put off. -/
structure Visited where
  condition : Condition
  postponed : Option Postponed := none

/-- Progress measured so far during a visit. -/
structure Tally where
  active : Bool := false
  isPercent : Bool := false
  current : Float := 0
  target : Float := 0
  deriving Inhabited

namespace Tally

/-- The larger of two doubles; a value that is not a number loses, and of equals the first wins. -/
def larger (first second : Float) : Float :=
  if first.isNaN then second else if first < second then second else first

/-- What a measured clause counts towards: its number of hits, else a constant on its right, else
one. -/
def targetOf (clause : Clause) : Float :=
  if 0 < clause.target then Ieee.doubleOfInt clause.target.toNat
  else
    match clause.right.constant? with
    | some value => value.toReal
    | none => 1

/-- A measured clause is visited. The first one starts the tally, and each further one may raise
it. -/
def record (tally : Tally) (clause : Clause) (current : Float) : Tally :=
  let isPercent := tally.isPercent || clause.flag == .measuredPercent
  let target := targetOf clause
  if tally.active then
    { tally with
      isPercent
      current := larger tally.current current
      target := larger tally.target target }
  else { active := true, isPercent, current := larger current 0, target }

/-- The progress to publish: zero while the gate is closed, and a positive target while it is
open. -/
def publish (tally : Tally) (gateOpen : Bool) : Measure :=
  if tally.active && gateOpen then
    { current := tally.current
      target := if tally.target ≤ 0 then 1 else tally.target
      isPercent := tally.isPercent
      active := tally.active }
  else { isPercent := tally.isPercent, active := tally.active }

end Tally

/-- A visit under way. -/
structure Visit where
  /-- The conditions behind, latest first. -/
  behind : List Visited := []
  accumulated : Accumulated := {}
  allMet : Bool := true
  /-- Does the next condition start over? -/
  resetNext : Bool := false
  tally : Tally := {}
  remembered : Option Number

namespace Visit

/-- What operands refer to at this point of the visit. -/
def sight (visit : Visit) (history : History) : Sight :=
  ⟨history, visit.remembered⟩

/-- The visit after conditions that count for nothing put off. Nothing accumulated is left. -/
def leave (visit : Visit) (conditions : List Condition) : Visit :=
  { visit with
    behind := (conditions.map fun condition => { condition }).reverse ++ visit.behind
    accumulated := {} }

/-- The visit after a group that was put off, to be counted by its member at an index. -/
def postpone (visit : Visit) (conditions : List Condition) (index : Nat) : Visit :=
  let postponed : Postponed := ⟨conditions.map (·.clause), visit.accumulated⟩
  let visited : List Visited := conditions.map fun condition => { condition }
  { visit with
    behind :=
      (visited.modify index fun entry => { entry with postponed := some postponed }).reverse ++
        visit.behind
    accumulated := {} }

/-- The visit after a group counted by its member at an index. Its last clause may be measured. -/
def count (visit : Visit) (history : History) (group : Group Condition) : Visit :=
  let sight := visit.sight history
  let truth := sight.allHold (group.members.map (·.clause)) visit.accumulated
  let index := group.countingIndex Condition.hasTarget
  let counted := (group.memberAt index).accrue truth
  let clause := group.last.clause
  let tally :=
    if clause.flag.isMeasured then
      visit.tally.record clause (sight.left clause visit.accumulated).toReal
    else visit.tally
  { visit.leave (group.members.set index counted) with
    allMet := visit.allMet && counted.counter.met
    tally }

/-- The visit after a condition that only feeds the next comparison. -/
def accumulate (visit : Visit) (history : History) (condition : Condition) : Visit :=
  let value := (visit.sight history).value condition.clause.left 0
  let accumulated := visit.accumulated
  { visit.leave [condition] with
    accumulated :=
      match condition.clause.flag with
      | .addSource => { accumulated with source := accumulated.source + value }
      | .subSource => { accumulated with source := accumulated.source - value }
      | .addAddress => { accumulated with bias := accumulated.bias + value.toInt }
      | _ => accumulated }

/-- The visit with a hit added to, or taken off, the condition just behind. -/
def adjustBehind (visit : Visit) (increment : Bool) : Visit :=
  { visit with
    behind := visit.behind.modifyHead fun entry =>
      { entry with condition := entry.condition.adjust increment } }

/-- The visit after a condition outside any chain; `none` when it throws all progress away. -/
def single (visit : Visit) (history : History) (condition : Condition) : Option Visit :=
  let sight := visit.sight history
  let clause := condition.clause
  let truth := sight.holds clause visit.accumulated
  match clause.flag with
  | .pauseIf | .measuredIf => some (visit.leave [condition])
  | .resetNextIf => some { visit.leave [condition] with resetNext := truth }
  | .resetIf => if truth then none else some (visit.leave [condition])
  | .addSource | .subSource | .addAddress => some (visit.accumulate history condition)
  | .addHits | .subHits =>
      let visit := if truth then visit.adjustBehind (clause.flag == .addHits) else visit
      some (visit.leave [condition])
  | .remember =>
      some { visit.leave [condition] with remembered := some (sight.left clause visit.accumulated) }
  | .trigger => some (visit.postpone [condition] 0)
  | .plain | .measured | .measuredPercent | .andNext | .orNext =>
      some (visit.count history ⟨[], condition⟩)

/-- The visit after a chain; `none` when it throws all progress away. -/
def chain (visit : Visit) (history : History) (group : Group Condition) : Option Visit :=
  let truth := (visit.sight history).allHold (group.members.map (·.clause)) visit.accumulated
  match group.last.clause.flag with
  | .trigger => some (visit.postpone group.members (group.countingIndex Condition.hasTarget))
  | .pauseIf | .measuredIf => some (visit.leave group.members)
  | .resetIf => if truth then none else some (visit.leave group.members)
  | .resetNextIf => some { visit.leave group.members with resetNext := truth }
  | _ => some (visit.count history group)

/-- The group whose first condition starts over. -/
def resetFirst (group : Group Condition) : Group Condition :=
  match group.links with
  | [] => { group with last := group.last.reset }
  | first :: links => { group with links := first.reset :: links }

/-- The visit after the next group; `none` when it throws all progress away. -/
def next (history : History) (visit : Visit) (group : Group Condition) : Option Visit :=
  let group := if visit.resetNext then resetFirst group else group
  let visit := { visit with resetNext := false }
  if group.isSingle Condition.isLink then visit.single history group.last
  else visit.chain history group

/-- The visit of all conditions; `none` when a reset held. -/
def all (history : History) (achievement : Achievement) : Option Visit :=
  (Group.split Condition.isLink achievement.conditions).foldlM (next history)
    { remembered := achievement.remembered }

end Visit

namespace Visited

/-- The condition after what was put off has been counted. -/
def settle (sight : Sight) (visited : Visited) : Condition :=
  match visited.postponed with
  | some group => visited.condition.accrue (sight.allHold group.clauses group.accumulated)
  | none => visited.condition

/-- Does the condition keep the achievement from unlocking, once what was put off is counted? -/
def blocks (sight : Sight) (visited : Visited) : Bool :=
  visited.postponed.isSome && !(visited.settle sight).counter.met

end Visited

namespace Achievement

/-- Does a pause hold? -/
def isPaused (achievement : Achievement) (history : History) : Bool :=
  achievement.conditions.any fun condition =>
    condition.clause.flag == .pauseIf &&
      Sight.holds ⟨history, achievement.remembered⟩ condition.clause {}

/-- May progress be published? -/
def gateOpen (achievement : Achievement) (history : History) : Bool :=
  (achievement.conditions.filter fun condition => condition.clause.flag == .measuredIf).all
    fun condition => Sight.holds ⟨history, achievement.remembered⟩ condition.clause {}

/-- The achievement after a visit that no reset ended, and whether it unlocked. -/
def conclude (achievement : Achievement) (history : History) (visit : Visit) :
    Achievement × Bool :=
  let visited := visit.behind.reverse
  let sight := visit.sight history
  let visitedAchievement :=
    { achievement with
      conditions :=
        if visit.allMet then visited.map (Visited.settle sight) else visited.map Visited.condition
      remembered := visit.remembered
      primed := visit.allMet }
  if visit.allMet && !visited.any (Visited.blocks sight) then
    ({ visitedAchievement with unlocked := true }, true)
  else
    let measure := visit.tally.publish (achievement.gateOpen history)
    ({ visitedAchievement with measure }, false)

/-- One frame passes; the result tells whether the achievement unlocked on it. -/
def step (history : History) (achievement : Achievement) : Achievement × Bool :=
  if achievement.unlocked then (achievement, false)
  else if achievement.isPaused history then ({ achievement with primed := false }, false)
  else
    match Visit.all history achievement with
    | none => (achievement.resetProgress, false)
    | some visit => achievement.conclude history visit

end Achievement

end Achievements
