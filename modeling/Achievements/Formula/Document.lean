import Achievements.Formula.Condition
import Achievements.Json.Reader
import Achievements.Json.Writer

/-!
# Conditions as documents

The written form of conditions: flags, comparisons and encodings by name, operands by their kind,
modifiers as the low bits of a byte.
-/

set_option autoImplicit false

namespace Achievements

namespace MemoryAccess

def toJson (access : MemoryAccess) : Json :=
  .object [("prefix", .string access.encoding.name), ("address", .integer access.address.toNat),
    ("modifiers", .integer access.modifiers.toBits)]

def ofJson? (document : Json) : Option MemoryAccess := do
  let [encoding, address, modifiers] ← document.fields? ["prefix", "address", "modifiers"] | none
  let name ← Json.required Json.bareAlternative? encoding
  let encoding ← Encoding.ofName? name
  let address ← Json.required Json.asUInt32? address
  let modifiers ← Json.optional 0 Json.asByte? modifiers
  some ⟨encoding, address, .ofBits modifiers.toNat⟩

end MemoryAccess

namespace Number

def toJson : Number → Json
  | .int value => .object [("Integer", .integer value.toInt)]
  | .real value => .object [("Float", .real value)]

end Number

namespace Json

/-- A double; an integer goes to the nearest one. -/
def asReal? : Json → Option Float
  | .integer value => some (Ieee.doubleOfInt value)
  | .real value => some value
  | _ => none

end Json

namespace Number

def ofJson? (document : Json) : Option Number :=
  match document.alternative? with
  | some ("Integer", some content) => content.asInt64?.map .int
  | some ("Float", some content) => content.asReal?.map .real
  | _ => none

end Number

namespace Operand

def toJson : Operand → Json
  | .memory access => .object [("Memory", access.toJson)]
  | .constant value => .object [("Constant", value.toJson)]
  | .recall => .string "Recall"

def ofJson? (document : Json) : Option Operand :=
  match document.alternative? with
  | some ("Memory", some content) => (MemoryAccess.ofJson? content).map .memory
  | some ("Constant", some content) => (Number.ofJson? content).map .constant
  | some ("Recall", none) => some .recall
  | some ("Recall", some .null) => some .recall
  | _ => none

end Operand

namespace Condition

def toJson (condition : Condition) : Json :=
  let clause := condition.clause
  .object [("flag", .string clause.flag.name), ("left", clause.left.toJson),
    ("op", .string clause.comparison.name), ("right", clause.right.toJson),
    ("hit_target", .integer clause.target.toNat), ("hits", .integer condition.counter.hits.toNat),
    ("is_met", .bool condition.counter.met)]

def ofJson? (document : Json) : Option Condition := do
  let [flag, left, comparison, right, target, hits, met] ←
    document.fields? ["flag", "left", "op", "right", "hit_target", "hits", "is_met"] | none
  let flagName ← Json.required Json.bareAlternative? flag
  let flag ← Flag.ofName? flagName
  let left ← Json.required Operand.ofJson? left
  let comparisonName ← Json.required Json.bareAlternative? comparison
  let comparison ← Comparison.ofName? comparisonName
  let right ← Json.required Operand.ofJson? right
  let target ← Json.required Json.asUInt32? target
  let hits ← Json.optional 0 Json.asUInt32? hits
  let met ← Json.optional false Json.asBool? met
  some ⟨{ flag, left, comparison, right, target }, ⟨hits, met⟩⟩

/-- The text of conditions. -/
def listToText (conditions : List Condition) : String :=
  (Json.array (conditions.map toJson)).pretty

end Condition

end Achievements
