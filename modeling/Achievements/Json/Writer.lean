import Achievements.Decimal.Layout
import Achievements.Json.Value

/-!
# Writing documents

Documents are written on one line, or with one item to a line, indented by two blanks a level. Only
what has to be escaped in strings is.
-/

set_option autoImplicit false

namespace Achievements.Json

/-- Doubles in documents: a whole number keeps its point, and exponents have a sign. -/
def realLayout : Decimal.Layout where
  positional := fun magnitude => -5 ≤ magnitude && magnitude < 16
  wholeSuffix := ".0"
  exponentPlus := "+"
  tie := .toEven
  nan := "null"
  infinity := "null"

/-- A double; one that is not finite has no written form. -/
def writeReal (value : Float) : List Char :=
  if Ieee.isFinite value then realLayout.write value else "null".toList

/-- A character inside a string. -/
def escapeChar (c : Char) : List Char :=
  if c = '"' then ['\\', '"']
  else if c = '\\' then ['\\', '\\']
  else if c = '\n' then ['\\', 'n']
  else if c = '\r' then ['\\', 'r']
  else if c = '\t' then ['\\', 't']
  else if c = '\x08' then ['\\', 'b']
  else if c = '\x0c' then ['\\', 'f']
  else if c.toNat < 0x20 then
    '\\' :: 'u' :: '0' :: '0' :: Nat.digitChar (c.toNat / 16) :: [Nat.digitChar (c.toNat % 16)]
  else [c]

/-- A string with its quotes. -/
def writeString (text : String) : List Char :=
  '"' :: text.toList.flatMap escapeChar ++ ['"']

/-- An integer. -/
def writeInteger (value : Int) : List Char :=
  if value < 0 then '-' :: Nat.toDigits 10 value.natAbs else Nat.toDigits 10 value.natAbs

mutual

/-- A document on one line. -/
def writeCompact : Json → List Char
  | .null => "null".toList
  | .bool value => if value then "true".toList else "false".toList
  | .integer value => writeInteger value
  | .real value => writeReal value
  | .string value => writeString value
  | .array items => '[' :: writeItems items ++ [']']
  | .object fields => '\x7b' :: writeFields fields ++ ['\x7d']
  | .unreadable => "null".toList

/-- Items with commas between them. -/
def writeItems : List Json → List Char
  | [] => []
  | [item] => writeCompact item
  | item :: rest => writeCompact item ++ ',' :: writeItems rest

/-- Fields with commas between them. -/
def writeFields : List (String × Json) → List Char
  | [] => []
  | [(name, value)] => writeString name ++ ':' :: writeCompact value
  | (name, value) :: rest =>
      writeString name ++ ':' :: writeCompact value ++ ',' :: writeFields rest

end

/-- A new line at an indentation level. -/
def newLine (level : Nat) : List Char :=
  '\n' :: List.replicate (2 * level) ' '

mutual

/-- A document at an indentation level, with one item to a line. -/
def writePretty (level : Nat) : Json → List Char
  | .array [] => ['[', ']']
  | .array (item :: rest) =>
      '[' :: newLine (level + 1) ++ writePretty (level + 1) item ++
        writeMoreItems (level + 1) rest ++ newLine level ++ [']']
  | .object [] => ['\x7b', '\x7d']
  | .object ((name, value) :: rest) =>
      '\x7b' :: newLine (level + 1) ++ writeString name ++ ':' :: ' ' ::
        writePretty (level + 1) value ++ writeMoreFields (level + 1) rest ++
        newLine level ++ ['\x7d']
  | .null => "null".toList
  | .bool value => if value then "true".toList else "false".toList
  | .integer value => writeInteger value
  | .real value => writeReal value
  | .string value => writeString value
  | .unreadable => "null".toList

/-- Items after the first, each after a comma on a line of its own. -/
def writeMoreItems (level : Nat) : List Json → List Char
  | [] => []
  | item :: rest =>
      ',' :: newLine level ++ writePretty level item ++ writeMoreItems level rest

/-- Fields after the first, each after a comma on a line of its own. -/
def writeMoreFields (level : Nat) : List (String × Json) → List Char
  | [] => []
  | (name, value) :: rest =>
      ',' :: newLine level ++ writeString name ++ ':' :: ' ' :: writePretty level value ++
        writeMoreFields level rest

end

/-- The text of a document on one line. -/
def compact (document : Json) : String :=
  String.ofList document.writeCompact

/-- The text of a document with one item to a line. -/
def pretty (document : Json) : String :=
  String.ofList (document.writePretty 0)

end Achievements.Json
