import Achievements.CommandLine.Options
import Achievements.Settings

/-!
# Invocations

The commands of the program with their options. Options that concern all commands may stand before
or after the command; after it they take precedence.
-/

set_option autoImplicit false

namespace Achievements.CommandLine

open Text

/-- Where the achievements to be verified come from. -/
inductive Source where
  | formula (text : String)
  | set (path : String)
  deriving DecidableEq, Repr

/-- A command with its own options. -/
inductive Command where
  | compile (formula : String) (json : Bool)
  | check (formula : String) (strict : Bool)
  | plan (formula : String) (json : Bool) (output : Option String)
  | verify (source : Source) (state : Option String)
  deriving DecidableEq, Repr

/-- A command and what concerns all commands. -/
structure Invocation where
  config : Option String
  framesPerSecond : Option UInt32
  verbose : Bool
  command : Command
  deriving DecidableEq, Repr

/-- Paths are not empty. -/
def acceptsPath (text : String) : Bool :=
  !text.isEmpty

/-- A rate in frames per second. -/
def readRate? (text : String) : Option UInt32 :=
  match readInt64? text.toList with
  | some value =>
      let rate := value.toInt
      if 0 ≤ rate ∧ rate ≤ limit32 then some (UInt32.ofNat rate.toNat) else none
  | none => none

/-- A flag. -/
def flag (name : String) (letter : Option Char) : OptionRule :=
  ⟨name, letter, .flag⟩

/-- An option that takes a path. -/
def path (name : String) (letter : Option Char) : OptionRule :=
  ⟨name, letter, .value acceptsPath⟩

/-- The options that concern all commands. -/
def commonOptions : List OptionRule :=
  [path "config" (some 'c'), ⟨"fps", none, .value fun text => (readRate? text).isSome⟩,
    flag "verbose" (some 'v')]

/-- The options before the command. -/
def outerLevel : Level where
  options := commonOptions ++ [⟨"version", some 'V', .version⟩]
  operands := 0
  commands := ["compile", "check", "plan", "verify"]

/-- The options and the operand of a command, the formula. -/
def commandLevel (options : List OptionRule) : Level where
  options := commonOptions ++ options
  operands := 1
  commands := []

/-- The options of a command by its name. -/
def commandOptions (name : String) : List OptionRule :=
  match name with
  | "compile" => [flag "json" none]
  | "check" => [flag "strict" none]
  | "plan" => [flag "json" none, path "output" (some 'o')]
  | "verify" => [path "set" (some 's'), path "state" none]
  | _ => []

/-- A command made of what has been given to it. All commands but one need a formula; that one takes
a set instead and prefers it. -/
def command? (name : String) (given : Given) : Option Command :=
  match name, given.operands with
  | "compile", [formula] => some (.compile formula (given.has "json"))
  | "check", [formula] => some (.check formula (given.has "strict"))
  | "plan", [formula] => some (.plan formula (given.has "json") (given.value? "output"))
  | "verify", operands =>
      match given.value? "set", operands with
      | some path, _ => some (.verify (.set path) (given.value? "state"))
      | none, [formula] => some (.verify (.formula formula) (given.value? "state"))
      | none, _ => none
  | _, _ => none

/-- Reads a command line. -/
def Invocation.read (words : List String) : Except Stop Invocation := do
  let (outer, rest) ← outerLevel.read ({}, none) words
  match rest with
  | none => .error .misuse
  | some (name, words) =>
      let (inner, _) ← (commandLevel (commandOptions name)).read ({}, none) words
      match command? name inner with
      | none => .error .misuse
      | some command =>
          let value? (option : String) := inner.value? option <|> outer.value? option
          .ok
            { config := value? "config"
              framesPerSecond := (value? "fps").bind readRate?
              verbose := inner.has "verbose" || outer.has "verbose"
              command }

end Achievements.CommandLine
