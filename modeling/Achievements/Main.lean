import Achievements.CommandLine.Run

/-!
The command line: runs the given words with access to the files of the system.
-/

set_option autoImplicit false

open Achievements Achievements.CommandLine

/-- The files of the system. -/
def systemFiles : Files IO where
  read path := do
    try return some (← IO.FS.readFile path)
    catch _ => return none
  write path text := do
    try
      IO.FS.writeFile path text
      return true
    catch _ => return false

/-- A run without an outcome goes on forever. -/
def goOn : IO Unit := do
  while true do IO.sleep 1000

def main (words : List String) : IO UInt32 := do
  let some outcome ← (run systemFiles .exact words).run
    | goOn
      return 0
  (← IO.getStdout).putStr outcome.output
  match outcome.ending with
  | .success => return 0
  | .misuse => IO.eprintln "error: unknown or incomplete command line"
  | .failure cause => IO.eprintln ("Error: " ++ cause.message)
  return UInt32.ofNat outcome.ending.code
