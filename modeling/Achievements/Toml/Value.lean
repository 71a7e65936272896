/-!
# Values of configuration files

A configuration file is a table of named values. How a table was written decides what may still be
added to it, so its form is kept with it; those who read a finished table ignore the form.
-/

set_option autoImplicit false

namespace Achievements.Toml

/-- How a table was written. -/
inductive TableForm where
  /-- In braces. Such a table is complete. -/
  | inline
  /-- By a header of its own. -/
  | header
  /-- By the header of a table inside it. -/
  | implied
  /-- By dotted names. -/
  | dotted
  deriving DecidableEq, Repr

/-- A value. -/
inductive Value where
  | boolean (value : Bool)
  | integer (value : Int)
  | real (value : Float)
  | text (value : String)
  /-- A date, a time of day or both. -/
  | moment
  | array (items : List Value)
  /-- Tables of one name, each with a header of its own. The last one may still grow. -/
  | tables (earlier : List (List (String × Value))) (last : List (String × Value))
  | table (form : TableForm) (fields : List (String × Value))
  deriving Inhabited

/-- The named values of a table, in the order in which they are written. -/
abbrev Fields := List (String × Value)

namespace Value

def asBool? : Value → Option Bool
  | .boolean value => some value
  | _ => none

def asText? : Value → Option String
  | .text value => some value
  | _ => none

/-- A natural number of at most `limit`. -/
def asNat? (limit : Nat) : Value → Option Nat
  | .integer value => if 0 ≤ value ∧ value ≤ limit then some value.toNat else none
  | _ => none

/-- The items of an array, which may also be written as tables of one name. -/
def asItems? : Value → Option (List Value)
  | .array items => some items
  | .tables earlier last => some ((earlier ++ [last]).map (.table .header))
  | _ => none

/-- The items of an array, each read in the same way. -/
def asList? {α : Type} (read : Value → Option α) (value : Value) : Option (List α) :=
  value.asItems?.bind (·.mapM read)

/-- The fields of a record, in the order of their names. A record is a table, in which other names
are passed over, or an array of its fields from the first on. A moment counts as a table that has
none of the names. -/
def fields? (names : List String) : Value → Option (List (Option Value))
  | .table _ fields => some (names.map fun name => fields.lookup name)
  | .moment => some (names.map fun _ => none)
  | value => value.asItems?.map fun items => names.zipIdx.map fun (_, index) => items[index]?

/-- A field that has to be there. -/
def required {α : Type} (read : Value → Option α) (field : Option Value) : Option α :=
  field.bind read

/-- A field that has a default. -/
def optional {α : Type} (default : α) (read : Value → Option α) : Option Value → Option α
  | none => some default
  | some value => read value

end Value

end Achievements.Toml
