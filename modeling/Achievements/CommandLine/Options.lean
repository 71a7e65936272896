/-!
# Options and operands

The words of a command line are read from left to right against the rules of one level: options
with and without values, long or clustered in short form, operands, and the words that name
commands, at which a level ends. A wrong word stops the reading, as does the request for the
version.
-/

set_option autoImplicit false

namespace Achievements.CommandLine

/-- Why reading stops early. -/
inductive Stop where
  | misuse
  | version
  deriving DecidableEq, Repr

/-- What an option asks for. -/
inductive OptionKind where
  | flag
  /-- An option with a value, and which values it accepts. -/
  | value (accepts : String → Bool)
  | version

/-- An option. -/
structure OptionRule where
  name : String
  letter : Option Char
  kind : OptionKind

/-- What can be given at one level. -/
structure Level where
  options : List OptionRule
  /-- How many operands there can be. -/
  operands : Nat
  /-- The words that end the level, unless they are values. -/
  commands : List String

/-- What has been given at one level. -/
structure Given where
  /-- Options by name, with their values. The value of a flag is empty. -/
  options : List (String × String) := []
  operands : List String := []
  deriving DecidableEq, Repr, Inhabited

namespace Given

/-- Has an option been given? -/
def has (given : Given) (name : String) : Bool :=
  (given.options.lookup name).isSome

/-- The value of an option that has been given. -/
def value? (given : Given) (name : String) : Option String :=
  given.options.lookup name

/-- Adds an option, which can be given only once. -/
def addOption (given : Given) (name value : String) : Except Stop Given :=
  if given.has name then .error .misuse
  else .ok { given with options := given.options ++ [(name, value)] }

/-- Adds an option with a value that it has to accept. -/
def addValue (given : Given) (rule : OptionRule) (value : String) : Except Stop Given :=
  match rule.kind with
  | .value accepts => if accepts value then given.addOption rule.name value else .error .misuse
  | _ => .error .misuse

/-- Adds an operand, if there can be one more. -/
def addOperand (given : Given) (level : Level) (word : String) : Except Stop Given :=
  if given.operands.length < level.operands then
    .ok { given with operands := given.operands ++ [word] }
  else .error .misuse

/-- Adds operands in turn. -/
def addOperands (given : Given) (level : Level) (words : List String) : Except Stop Given :=
  words.foldlM (fun given word => given.addOperand level word) given

end Given

/-- What has been given, and the option that still waits for its value. -/
abbrev Progress := Given × Option OptionRule

namespace Level

/-- A cluster of short options. The first one that takes a value takes the rest of the cluster, less
an equals sign in front, or waits if the cluster ends there. -/
def readCluster (level : Level) : List Char → Given → Except Stop Progress
  | [], given => .ok (given, none)
  | letter :: rest, given =>
      match level.options.find? fun rule => rule.letter == some letter with
      | none => .error .misuse
      | some rule =>
          match rule.kind, rest with
          | .version, _ => .error .version
          | .flag, _ => (given.addOption rule.name "").bind (level.readCluster rest)
          | .value _, [] => .ok (given, some rule)
          | .value _, '=' :: value =>
              (given.addValue rule (String.ofList value)).map fun given => (given, none)
          | .value _, value =>
              (given.addValue rule (String.ofList value)).map fun given => (given, none)

/-- A long option, with a value after an equals sign if there is one. -/
def readLong (level : Level) (text : List Char) (given : Given) : Except Stop Progress :=
  let name := String.ofList (text.takeWhile (· ≠ '='))
  match level.options.find? fun rule => rule.name == name with
  | none => .error .misuse
  | some rule =>
      match rule.kind, text.dropWhile (· ≠ '=') with
      | .version, [] => .error .version
      | .flag, [] => (given.addOption rule.name "").map fun given => (given, none)
      | .value _, [] => .ok (given, some rule)
      | _, _ :: value =>
          (given.addValue rule (String.ofList value)).map fun given => (given, none)

/-- All words after two dashes are operands, except for a value that is waited for. -/
def readPlain (level : Level) (given : Given) :
    Option OptionRule → List String → Except Stop Given
  | none, words => given.addOperands level words
  | some rule, word :: words =>
      (given.addValue rule word).bind fun given => given.addOperands level words
  | some _, [] => .error .misuse

/-- Reads the words of a level. The result also has the command at which the level ends, if there
is one, and the words after it. -/
def read (level : Level) : Progress → List String →
    Except Stop (Given × Option (String × List String))
  | (given, none), [] => .ok (given, none)
  | (_, some _), [] => .error .misuse
  | (given, waiting), word :: words =>
      if waiting.isNone && level.commands.contains word then .ok (given, some (word, words))
      else
        match word.toList, waiting with
        | ['-', '-'], _ => (level.readPlain given waiting words).map fun given => (given, none)
        | '-' :: '-' :: _ :: _, some _ => .error .misuse
        | '-' :: '-' :: option, none =>
            (level.readLong option given).bind fun progress => level.read progress words
        | '-' :: _ :: _, some _ => .error .misuse
        | '-' :: letter :: cluster, none =>
            (level.readCluster (letter :: cluster) given).bind fun progress =>
              level.read progress words
        | _, some rule =>
            (given.addValue rule word).bind fun given => level.read (given, none) words
        | _, none =>
            (given.addOperand level word).bind fun given => level.read (given, none) words

end Level

end Achievements.CommandLine
