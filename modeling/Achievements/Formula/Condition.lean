import Achievements.Formula.Clause

/-!
# Conditions

A condition is a clause during play: the clause together with a counter of the frames on which its
comparison held. `Counter.accrue` counts one frame, `Counter.adjust` is the effect of a neighbour
that adds or takes off hits. Every step decides anew, from the number of hits alone, whether the
condition is met.
-/

set_option autoImplicit false

namespace Achievements

/-- How often a comparison has held, and whether that was often enough. -/
structure Counter where
  hits : UInt32 := 0
  met : Bool := false
  deriving DecidableEq, Repr, Inhabited

namespace Counter

/-- Are these hits enough? Without a target one is. -/
def reached (target hits : UInt32) : Bool :=
  if target = 0 then 0 < hits else target ≤ hits

/-- A counter of the given hits. -/
def ofHits (target hits : UInt32) : Counter :=
  ⟨hits, reached target hits⟩

/-- One frame passes. Without a target the counter stays at one once it was reached; with a target
it stops there. -/
def accrue (target : UInt32) (truth : Bool) (counter : Counter) : Counter :=
  if target = 0 then ofHits target (if truth then 1 else counter.hits)
  else ofHits target (if truth && counter.hits < target then counter.hits + 1 else counter.hits)

/-- One hit is added, as far as the target and 32 bits allow, or taken off, down to zero. -/
def adjust (target : UInt32) (increment : Bool) (counter : Counter) : Counter :=
  let hits := counter.hits
  if increment then
    let mayGrow := (target = 0 || hits < target) && hits < 0xFFFFFFFF
    ofHits target (if mayGrow then hits + 1 else hits)
  else ofHits target (if hits = 0 then 0 else hits - 1)

end Counter

/-- A clause and its counter. -/
structure Condition where
  clause : Clause
  counter : Counter := {}
  deriving BEq, Inhabited

namespace Condition

/-- The condition of a clause before the first frame. -/
def fresh (clause : Clause) : Condition :=
  ⟨clause, {}⟩

/-- Counting starts over. -/
def reset (condition : Condition) : Condition :=
  fresh condition.clause

/-- One frame passes, on which the comparison that counts held or did not. -/
def accrue (truth : Bool) (condition : Condition) : Condition :=
  { condition with counter := condition.counter.accrue condition.clause.target truth }

/-- One hit is added or taken off. -/
def adjust (increment : Bool) (condition : Condition) : Condition :=
  { condition with counter := condition.counter.adjust condition.clause.target increment }

def isLink (condition : Condition) : Bool :=
  condition.clause.flag.isLink

/-- Does the clause ask for a number of hits? -/
def hasTarget (condition : Condition) : Bool :=
  0 < condition.clause.target

/-- The condition as it is described to a user. -/
def describe (condition : Condition) : List Char :=
  let clause := condition.clause
  (if clause.flag = .plain then [] else clause.flag.name.toList ++ ": ".toList) ++
    clause.left.describe ++ ' ' :: clause.comparison.describe ++ ' ' :: clause.right.describe ++
    " hits=".toList ++ Text.decimal condition.counter.hits.toNat ++
    '/' :: Text.decimal clause.target.toNat

end Condition

end Achievements
