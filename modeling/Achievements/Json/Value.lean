/-!
# Documents

A document is a tree of objects, arrays and leaves. Objects keep their fields in the order in which
they are written. Integers and doubles are kept apart: a number without fraction and exponent is an
integer as long as it fits 64 bits, signed or unsigned.

A text can have the shape of a string or a number and yet have no value, when an escape names half
of a surrogate pair or a number is larger than every double. Such a leaf is `unreadable`; it does no
harm where it is not asked for.
-/

set_option autoImplicit false

namespace Achievements

/-- A document. -/
inductive Json where
  | null
  | bool (value : Bool)
  | integer (value : Int)
  | real (value : Float)
  | string (value : String)
  | array (items : List Json)
  | object (fields : List (String × Json))
  | unreadable
  deriving Inhabited

namespace Json

def asBool? : Json → Option Bool
  | .bool value => some value
  | _ => none

def asString? : Json → Option String
  | .string value => some value
  | _ => none

/-- An integer between two bounds. -/
def asInteger? (low high : Int) : Json → Option Int
  | .integer value => if low ≤ value ∧ value ≤ high then some value else none
  | _ => none

def asByte? (document : Json) : Option UInt8 :=
  (document.asInteger? 0 0xFF).map fun value => UInt8.ofNat value.toNat

def asUInt32? (document : Json) : Option UInt32 :=
  (document.asInteger? 0 0xFFFFFFFF).map fun value => UInt32.ofNat value.toNat

def asInt64? (document : Json) : Option Int64 :=
  (document.asInteger? (-0x8000000000000000) 0x7FFFFFFFFFFFFFFF).map Int64.ofInt

/-- The items of an array, each read in the same way. -/
def asList? {α : Type} (read : Json → Option α) : Json → Option (List α)
  | .array items => items.mapM read
  | _ => none

/-- The field of a name. -/
def lookup (name : String) (fields : List (String × Json)) : Option Json :=
  fields.lookup name

/-- The fields of a record, in the order of their names. A record is an object in which no name
occurs twice and other names are passed over, or an array of its fields from the first on. -/
def fields? (names : List String) : Json → Option (List (Option Json))
  | .object fields =>
      let known := (fields.map Prod.fst).filter names.contains
      if known.Nodup then some (names.map (lookup · fields)) else none
  | .array items =>
      if items.length ≤ names.length then
        some (names.zipIdx.map fun (_, index) => items[index]?)
      else none
  | _ => none

/-- A field that has to be there. -/
def required {α : Type} (read : Json → Option α) (field : Option Json) : Option α :=
  field.bind read

/-- A field that has a default. -/
def optional {α : Type} (default : α) (read : Json → Option α) : Option Json → Option α
  | none => some default
  | some document => read document

/-- The name of an alternative and what it holds: a string for one that holds nothing, or an object
with a single field. -/
def alternative? : Json → Option (String × Option Json)
  | .string name => some (name, none)
  | .object [(name, content)] => some (name, some content)
  | _ => none

/-- The name of an alternative that holds nothing. -/
def bareAlternative? (document : Json) : Option String :=
  match document.alternative? with
  | some (name, none) => some name
  | some (name, some .null) => some name
  | _ => none

end Json

end Achievements
