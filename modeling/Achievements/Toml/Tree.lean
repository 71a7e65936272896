import Achievements.Toml.Value

/-!
# Growing tables

A file adds to its tables line by line. A value is added once. A table with a header can be opened
once, even if a table inside it had a header before, and what was written in braces or brackets is
complete.
-/

set_option autoImplicit false

namespace Achievements.Toml.Fields

/-- The fields with the value of a name replaced. -/
def put (name : String) (value : Value) (fields : Fields) : Fields :=
  fields.map fun field => if field.1 == name then (name, value) else field

/-- The fields with one more at the end. -/
def add (name : String) (value : Value) (fields : Fields) : Fields :=
  fields ++ [(name, value)]

/-- Adds a value under a dotted name. Every name but the last stands for a table, which is made if
there is none. The table that takes the value must be the starting one or made by dotted names,
which `grows` tells of the table at hand. -/
def assign (value : Value) : Bool → List String → Fields → Option Fields
  | _, [], _ => none
  | grows, [name], fields =>
      if grows && (fields.lookup name).isNone then some (fields.add name value) else none
  | _, name :: path, fields =>
      match fields.lookup name with
      | none => (assign value true path []).map fun inner =>
          fields.add name (.table .dotted inner)
      | some (.table .dotted inner) => (assign value true path inner).map fun inner =>
          fields.put name (.table .dotted inner)
      | some (.table .implied inner) => (assign value false path inner).map fun inner =>
          fields.put name (.table .implied inner)
      | some (.tables earlier last) => (assign value false path last).map fun last =>
          fields.put name (.tables earlier last)
      | some _ => none

/-- Changes the table to which the names of a header lead. Tables on the way are made if there are
none; of tables of one name the last is meant. -/
def within (change : Fields → Option Fields) : List String → Fields → Option Fields
  | [], fields => change fields
  | name :: path, fields =>
      match fields.lookup name with
      | none => (within change path []).map fun inner =>
          fields.add name (.table .implied inner)
      | some (.table .inline _) => none
      | some (.table form inner) => (within change path inner).map fun inner =>
          fields.put name (.table form inner)
      | some (.tables earlier last) => (within change path last).map fun last =>
          fields.put name (.tables earlier last)
      | some _ => none

/-- Opens a table by its header. -/
def openTable (name : String) (fields : Fields) : Option Fields :=
  match fields.lookup name with
  | none => some (fields.add name (.table .header []))
  | some (.table .implied inner) => some (fields.put name (.table .header inner))
  | some _ => none

/-- Opens one more of the tables of one name. -/
def openItem (name : String) (fields : Fields) : Option Fields :=
  match fields.lookup name with
  | none => some (fields.add name (.tables [] []))
  | some (.tables earlier last) => some (fields.put name (.tables (earlier ++ [last]) []))
  | some _ => none

end Achievements.Toml.Fields
