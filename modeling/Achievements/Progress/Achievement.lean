import Achievements.Formula.Condition

/-!
# Achievements

An achievement is a formula with what has been achieved of it so far: its conditions with their
counters, a remembered value, whether everything but its triggers holds, whether it is unlocked, and
the progress it publishes.
-/

set_option autoImplicit false

namespace Achievements

/-- Progress as it is published. -/
structure Measure where
  current : Float := 0
  target : Float := 0
  isPercent : Bool := false
  active : Bool := false
  deriving Inhabited

namespace Measure

/-- The part of the target that is reached, between zero and one, if progress is measured. -/
def fraction? (measure : Measure) : Option Float :=
  if !measure.active || measure.target ≤ 0 then none
  else
    let ratio := measure.current / measure.target
    let ratio := if ratio < 0 then 0 else ratio
    some (if 1 < ratio then 1 else ratio)

end Measure

/-- A formula and its progress. -/
structure Achievement where
  id : String
  formula : String
  conditions : List Condition
  primed : Bool := false
  /-- Once set, only a return to power-on clears it. -/
  unlocked : Bool := false
  remembered : Option Number := none
  measure : Measure := {}
  deriving Inhabited

namespace Achievement

/-- An achievement of which nothing has been achieved. -/
def fresh (id formula : String) (clauses : List Clause) : Achievement :=
  { id, formula, conditions := clauses.map Condition.fresh }

/-- All counting starts over, and nothing is remembered. -/
def resetProgress (achievement : Achievement) : Achievement :=
  { achievement with
    conditions := achievement.conditions.map Condition.reset
    remembered := none
    primed := false }

/-- The state at power-on. -/
def powerOn (achievement : Achievement) : Achievement :=
  { achievement.resetProgress with unlocked := false, measure := {} }

end Achievement

end Achievements
