import Achievements.Toml.Statement

/-!
# Configuration files

The table that the statements of a file build up. A header opens a table, to which the values that
follow are added.
-/

set_option autoImplicit false

namespace Achievements.Toml

/-- A file as far as it has been read: its table, and the names that lead to the open one. -/
structure Draft where
  opened : List String := []
  root : Fields := []

namespace Draft

/-- The draft after a header, which opens the table of the last of its names. -/
def openSection (draft : Draft) (change : String → Fields → Option Fields)
    (path : List String) : Option Draft := do
  let name ← path.getLast?
  let root ← Fields.within (change name) path.dropLast draft.root
  some ⟨path, root⟩

/-- The draft after one more statement. -/
def extend (draft : Draft) : Statement → Option Draft
  | .table path => draft.openSection Fields.openTable path
  | .item path => draft.openSection Fields.openItem path
  | .value path value => do
      let root ← Fields.within (Fields.assign value true path) draft.opened draft.root
      some { draft with root }

end Draft

/-- The text without the mark that may open a file to tell its encoding. -/
def dropByteOrderMark : List Char → List Char
  | '\uFEFF' :: rest => rest
  | text => text

/-- The table that a text describes. -/
def parse? (text : String) : Option Value := do
  let chars := dropByteOrderMark text.toList
  let statements ← readStatements? (chars.length + 1) chars
  let draft ← statements.foldlM Draft.extend ({} : Draft)
  some (.table .header draft.root)

end Achievements.Toml
