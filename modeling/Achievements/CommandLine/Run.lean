import Achievements.CommandLine.Invocation
import Achievements.Engine.Document
import Achievements.Formula.Document
import Achievements.Formula.Lint
import Achievements.Plan.Document
import Achievements.Plan.Listing
import Achievements.Verification

/-!
# Running commands

A command reads files, writes files and prints text, and ends well or with the message of a failure.
Files are reached through `Files`, so that a run is a function of what they hold. A run that needs a
plan where there is none never ends.
-/

set_option autoImplicit false

namespace Achievements.CommandLine

/-- Access to files by their paths. -/
structure Files (m : Type → Type) where
  /-- The text of a file, if it can be read. -/
  read : String → m (Option String)
  /-- Makes a text the content of a file. The result tells whether this was possible. -/
  write : String → String → m Bool

/-- Why a command fails. -/
inductive Failure where
  | config (path : String)
  | zeroRate
  | warnings (count : Nat)
  | writePlan (path : String)
  | readSet (path : String)
  | set (error : SetError)
  | plan (fault : PlanTooLong)
  | writeState (path : String)
  | locked (count total : Nat)
  deriving DecidableEq, Repr

def Failure.message : Failure → String
  | .config path => s!"Failed to load config: {path}"
  | .zeroRate => "--fps must be greater than zero"
  | .warnings count => s!"{count} warning(s)"
  | .writePlan path => s!"Failed to write plan: {path}"
  | .readSet path => s!"Failed to read achievement set: {path}"
  | .set error => error.message
  | .plan fault => fault.message
  | .writeState path => s!"Failed to write state: {path}"
  | .locked count total => s!"{count} of {total} achievement(s) did not unlock"

/-- How a run ends. -/
inductive Ending where
  | success
  | failure (cause : Failure)
  | misuse
  deriving DecidableEq, Repr

/-- The exit code. -/
def Ending.code : Ending → Nat
  | .success => 0
  | .failure _ => 1
  | .misuse => 2

/-- The message of a failure. -/
def Ending.message? : Ending → Option String
  | .failure cause => some cause.message
  | _ => none

/-- What a run prints and how it ends. -/
structure Outcome where
  output : String
  ending : Ending
  deriving DecidableEq, Repr

namespace Outcome

def success (output : String) : Outcome :=
  ⟨output, .success⟩

def failure (output : String) (cause : Failure) : Outcome :=
  ⟨output, .failure cause⟩

/-- The outcome after a write, which has to succeed. -/
def afterWrite (written : Bool) (cause : Failure) (outcome : Outcome) : Outcome :=
  if written then outcome else .failure outcome.output cause

end Outcome

/-- What the program says about its version. -/
def versionLine : String := "cheevo 0.1.0\n"

/-- The clauses of a formula. -/
def readFormula (settings : Settings) (formula : String) : List Clause :=
  Formula.read settings.formula.framesPerSecond formula

/-- Shows what a formula consists of. -/
def runCompile (settings : Settings) (formula : String) (json : Bool) : Outcome :=
  let conditions := (readFormula settings formula).map Condition.fresh
  .success (if json then Condition.listToText conditions ++ "\n" else listConditions conditions)

/-- Shows the warnings about a formula. -/
def runCheck (settings : Settings) (formula : String) (strict : Bool) : Outcome :=
  let warnings := Formula.warnings (readFormula settings formula)
  if warnings.isEmpty then .success "OK\n"
  else
    let output := String.join (warnings.map fun warning => s!"warning: {warning.message}\n")
    if strict then .failure output (.warnings warnings.length) else .success output

/-- A verdict on one line. -/
def verdictLine (verdict : Verdict) : String :=
  let status := if verdict.unlocked then "PASS" else "FAIL"
  let title := if verdict.title.isEmpty then "" else s!" \"{verdict.title}\""
  s!"{status}  {verdict.id}{title} ({verdict.steps} steps)\n"

/-- The verdicts of a report, and a failure if an achievement did not unlock. -/
def reportOutcome (report : VerifyReport) : Outcome :=
  let output := String.join (report.verdicts.map verdictLine)
  if report.failures = 0 then .success output
  else .failure output (.locked report.failures report.verdicts.length)

section

variable {m : Type → Type} [Monad m] (files : Files m) (platform : Platform)

/-- Shows the plan for a formula, or writes it to a file. -/
def runPlan (settings : Settings) (formula : String) (json : Bool) (output : Option String) :
    OptionT m Outcome := do
  let plan ← OptionT.mk (pure (Plan.build? (readFormula settings formula) platform))
  match output with
  | some path =>
      let written ← files.write path plan.toText
      return .afterWrite written (.writePlan path) (.success "")
  | none => return .success (if json then plan.toText ++ "\n" else plan.list)

/-- The achievements to be verified. -/
def readSource (source : Source) : m (Except Failure AchievementSet) := do
  match source with
  | .formula text => return .ok (.single "formula" text)
  | .set path =>
      match ← files.read path with
      | some text => return (AchievementSet.ofText text).mapError .set
      | none => return .error (.readSet path)

/-- Shows what becomes of achievements, and writes the state they end in to a file. -/
def runVerify (settings : Settings) (source : Source) (state : Option String) :
    OptionT m Outcome := do
  match ← (readSource files source : m _) with
  | .error cause => return .failure "" cause
  | .ok set =>
      match ← OptionT.mk (pure (set.verify platform settings)), state with
      | .error fault, _ => return .failure "" (.plan fault)
      | .ok report, none => return reportOutcome report
      | .ok report, some path =>
          let written ← files.write path report.state.toText
          return .afterWrite written (.writeState path) (reportOutcome report)

/-- Runs a command with its settings. -/
def runCommand (settings : Settings) : Command → OptionT m Outcome
  | .compile formula json => return runCompile settings formula json
  | .check formula strict => return runCheck settings formula strict
  | .plan formula json output => runPlan files platform settings formula json output
  | .verify source state => runVerify files platform settings source state

/-- The settings of a configuration file, or those that hold without one. -/
def readSettings (config : Option String) : m (Except Failure Settings) := do
  match config with
  | none => return .ok {}
  | some path =>
      match (← files.read path).bind Settings.ofText? with
      | some settings => return .ok settings
      | none => return .error (.config path)

/-- The settings with those replaced that an invocation gives itself. -/
def overrideSettings (invocation : Invocation) (settings : Settings) : Except Failure Settings :=
  let formula := settings.formula
  let formula := { formula with trace := formula.trace || invocation.verbose }
  match invocation.framesPerSecond with
  | none => .ok { settings with formula }
  | some rate =>
      if rate = 0 then .error .zeroRate
      else .ok { settings with formula := { formula with framesPerSecond := rate } }

/-- Carries out an invocation. -/
def runInvocation (invocation : Invocation) : OptionT m Outcome := do
  match (← (readSettings files invocation.config : m _)).bind (overrideSettings invocation) with
  | .error cause => return .failure "" cause
  | .ok settings => runCommand files platform settings invocation.command

/-- Runs a command line; `none` if the run never ends. -/
def run (words : List String) : OptionT m Outcome :=
  match Invocation.read words with
  | .error .misuse => return ⟨"", .misuse⟩
  | .error .version => return .success versionLine
  | .ok invocation => runInvocation files platform invocation

end

end Achievements.CommandLine
