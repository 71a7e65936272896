import Achievements.Json.Reader
import Achievements.Json.Writer
import Achievements.Plan.Basic

/-!
# Plans as documents

The written form of a plan. A mask may be left out when it is full, and so may the writes of a step
that has none.
-/

set_option autoImplicit false

namespace Achievements

namespace ByteWrite

def toJson (write : ByteWrite) : Json :=
  .object [("address", .integer write.address.toNat), ("value", .integer write.value.toNat),
    ("mask", .integer write.mask.toNat)]

def ofJson? (document : Json) : Option ByteWrite := do
  let [address, value, mask] ← document.fields? ["address", "value", "mask"] | none
  let address ← Json.required Json.asUInt32? address
  let value ← Json.required Json.asByte? value
  let mask ← Json.optional 255 Json.asByte? mask
  some ⟨address, value, mask⟩

end ByteWrite

namespace Step

def toJson (step : Step) : Json :=
  .object [("comment", .string step.comment),
    ("writes", .array (step.writes.map ByteWrite.toJson))]

def ofJson? (document : Json) : Option Step := do
  let [comment, writes] ← document.fields? ["comment", "writes"] | none
  let comment ← Json.required Json.asString? comment
  let writes ← Json.optional [] (Json.asList? ByteWrite.ofJson?) writes
  some ⟨comment, writes⟩

end Step

namespace Plan

def toJson (plan : Plan) : Json :=
  .object [("steps", .array (plan.steps.map Step.toJson))]

def ofJson? (document : Json) : Option Plan := do
  let [steps] ← document.fields? ["steps"] | none
  let steps ← Json.required (Json.asList? Step.ofJson?) steps
  some ⟨steps⟩

/-- The text of a plan. -/
def toText (plan : Plan) : String :=
  plan.toJson.pretty

/-- The plan that a text describes. -/
def ofText? (text : String) : Option Plan :=
  (Json.parse? text).bind ofJson?

end Plan

end Achievements
