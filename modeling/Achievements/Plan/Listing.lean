import Achievements.Formula.Condition
import Achievements.Formula.Writer
import Achievements.Plan.Basic

/-!
# Listings

A formula and a plan as a user sees them: one numbered line for each condition, followed by the
canonical formula, and one numbered line for each step with its writes.
-/

set_option autoImplicit false

namespace Achievements

open Text

/-- The conditions of a formula, one to a line, and its canonical text. -/
def listConditions (conditions : List Condition) : String :=
  let lines := conditions.zipIdx.flatMap fun (condition, index) =>
    padStart 3 (decimal index) ++ "  ".toList ++ condition.describe ++ ['\n']
  String.ofList (lines ++ "canonical: ".toList ++
    (Formula.write (conditions.map (·.clause))).toList ++ ['\n'])

/-- A write as `address=value`, with its mask unless that is full. -/
def ByteWrite.describe (write : ByteWrite) : List Char :=
  let number (width value : Nat) := "0x".toList ++ hexadecimal width value
  number 4 write.address.toNat ++ '=' :: number 2 write.value.toNat ++
    if write.mask = 255 then [] else '/' :: number 2 write.mask.toNat

/-- The steps of a plan, one to a line. -/
def Plan.list (plan : Plan) : String :=
  String.ofList <| plan.steps.zipIdx.flatMap fun (step, frame) =>
    padStart 4 (decimal frame) ++ "  ".toList ++ step.comment.toList ++
      step.writes.flatMap (fun write => ' ' :: write.describe) ++ ['\n']

end Achievements
