import Achievements.CommandLine.Run

/-!
# Files held in memory

A folder of files in memory, in which a command can run without any other effect. Paths are resolved
against the folder; what lies outside of it cannot be reached.
-/

set_option autoImplicit false

namespace Achievements.CommandLine

/-- The names that lead from a folder to a file. -/
abbrev Location := List String

/-- Files by their places. -/
structure Folder where
  files : List (Location × String) := []

namespace Folder

/-- A folder that holds files of the given paths. -/
def ofFiles (files : List (String × String)) : Folder :=
  ⟨files.map fun (path, text) => (path.splitOn "/", text)⟩

/-- Is the place a folder, since some file is in it? -/
def hasFolder (folder : Folder) (place : Location) : Bool :=
  place.isEmpty || folder.files.any fun (file, _) => place.isPrefixOf file && place != file

/-- Takes one step of a path, which has to start in a folder: to the same place, to the folder
around it or to a name in it. -/
def stepTo (folder : Folder) (place : Location) (name : String) : Option Location :=
  if !folder.hasFolder place then none
  else if name = "" ∨ name = "." then some place
  else if name = ".." then if place.isEmpty then none else some place.dropLast
  else some (place ++ [name])

/-- The place of a file by its path. -/
def locate? (folder : Folder) (path : String) : Option Location :=
  if path.startsWith "/" then none
  else (path.splitOn "/").foldlM folder.stepTo []

/-- The text of a file. -/
def read? (folder : Folder) (path : String) : Option String :=
  (folder.locate? path).bind fun place => folder.files.lookup place

/-- The folder with a file written, in place of any file there; a folder cannot be replaced. -/
def write? (folder : Folder) (path text : String) : Option Folder :=
  match folder.locate? path with
  | none => none
  | some place =>
      if folder.hasFolder place then none
      else some ⟨(place, text) :: folder.files.filter fun (file, _) => file != place⟩

/-- Access to the files of a folder. -/
def access : Files (StateM Folder) where
  read path := do return (← get).read? path
  write path text := do
    match (← get).write? path text with
    | some folder => set folder; return true
    | none => return false

/-- Runs a command line in a folder; there is no outcome if the run never ends. -/
def run (platform : Platform) (folder : Folder) (words : List String) :
    Option Outcome × Folder :=
  (CommandLine.run access platform words).run.run folder

end Folder

end Achievements.CommandLine
