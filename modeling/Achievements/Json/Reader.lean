import Achievements.Decimal.Estimate
import Achievements.Json.Value
import Achievements.Text.Numeral

/-!
# Reading documents

A reader takes what it understands off the front of a text and gives the rest. Nesting is bounded by
the length of the text, which serves as the measure of the recursion.
-/

set_option autoImplicit false

namespace Achievements.Json

open Text

/-- The text after its leading blanks, of which documents know four. -/
def skipBlanks (text : List Char) : List Char :=
  text.dropWhile fun c => c == ' ' || c == '\n' || c == '\r' || c == '\t'

/-! ## Strings -/

/-- A piece of a string: a character, or an escaped half of a surrogate pair. -/
inductive Piece where
  | char (c : Char)
  | surrogate (code : Nat)
  deriving DecidableEq

/-- A code point written as an escape. -/
def pieceOfCode (code : Nat) : Piece :=
  if 0xD800 ≤ code ∧ code < 0xE000 then .surrogate code else .char (Char.ofNat code)

/-- Four hexadecimal digits. -/
def hexCode? (a b c d : Char) : Option Nat :=
  readNat? 16 [a, b, c, d]

/-- The character that a short escape stands for. -/
def shortEscape? (c : Char) : Option Char :=
  match c with
  | '"' => some '"'
  | '\\' => some '\\'
  | '/' => some '/'
  | 'b' => some '\x08'
  | 'f' => some '\x0c'
  | 'n' => some '\n'
  | 'r' => some '\r'
  | 't' => some '\t'
  | _ => none

/-- The pieces of a string up to its closing quote, and the text after that. -/
def readPieces : List Char → Option (List Piece × List Char)
  | [] => none
  | '"' :: rest => some ([], rest)
  | '\\' :: 'u' :: a :: b :: c :: d :: rest =>
      match hexCode? a b c d, readPieces rest with
      | some code, some (pieces, rest) => some (pieceOfCode code :: pieces, rest)
      | _, _ => none
  | '\\' :: c :: rest =>
      match shortEscape? c, readPieces rest with
      | some meant, some (pieces, rest) => some (.char meant :: pieces, rest)
      | _, _ => none
  | c :: rest =>
      if c.toNat < 0x20 then none
      else
        match readPieces rest with
        | some (pieces, rest) => some (.char c :: pieces, rest)
        | none => none

/-- The characters of a string, if every surrogate has its other half. -/
def joinPieces? : List Piece → Option (List Char)
  | [] => some []
  | .char c :: rest => (joinPieces? rest).map (c :: ·)
  | .surrogate high :: .surrogate low :: rest =>
      if high < 0xDC00 ∧ 0xDC00 ≤ low then
        let code := 0x10000 + (high - 0xD800) * 0x400 + (low - 0xDC00)
        (joinPieces? rest).map (Char.ofNat code :: ·)
      else none
  | .surrogate _ :: _ => none

/-- A string after its opening quote. The inner value is missing if the string has none. -/
def readString? (text : List Char) : Option (Option String × List Char) :=
  (readPieces text).map fun (pieces, rest) => ((joinPieces? pieces).map String.ofList, rest)

/-! ## Numbers -/

/-- Digits, at least one. -/
def takeDigits? (text : List Char) : Option (List Char × List Char) :=
  let digits := text.takeWhile Char.isDigit
  if digits.isEmpty then none else some (digits, text.dropWhile Char.isDigit)

/-- The digits before the point: a lone zero, or digits that do not start with one. -/
def takeWhole? (text : List Char) : Option (List Char × List Char) :=
  match text with
  | '0' :: rest => some (['0'], rest)
  | _ => takeDigits? text

/-- The digits after a point, if there is one. -/
def takeFraction? (text : List Char) : Option (List Char × List Char) :=
  match text with
  | '.' :: rest => takeDigits? rest
  | _ => some ([], text)

/-- The value of digits. -/
def valueOf (digits : List Char) : Nat :=
  (readDigits 10 0 digits).getD 0

/-- An exponent after its mark. -/
def takeExponentDigits? (text : List Char) : Option (Int × List Char) :=
  let (negative, text) := match text with
    | '-' :: rest => (true, rest)
    | '+' :: rest => (false, rest)
    | _ => (false, text)
  match takeDigits? text with
  | some (digits, rest) =>
      let value : Int := valueOf digits
      some (if negative then -value else value, rest)
  | none => none

/-- An exponent, if there is one. -/
def takeExponent? (text : List Char) : Option (Option Int × List Char) :=
  match text with
  | 'e' :: rest => (takeExponentDigits? rest).map fun (value, rest) => (some value, rest)
  | 'E' :: rest => (takeExponentDigits? rest).map fun (value, rest) => (some value, rest)
  | _ => some (none, text)

/-- A double as a leaf. -/
def ofReal (value : Float) : Json :=
  if Ieee.isFinite value then .real value else .unreadable

/-- An integer as a leaf: it stays an integer if it fits 64 bits, signed or unsigned. Negative zero
is a double. -/
def ofInteger (negative : Bool) (digits : List Char) : Json :=
  let magnitude := valueOf digits
  if !negative && magnitude ≤ limit64 then .integer magnitude
  else if negative && 0 < magnitude && magnitude ≤ limit63 + 1 then .integer (-magnitude)
  else ofReal (Decimal.estimate negative (.ofDigits digits [] 0))

/-- A number without its sign. -/
def readUnsigned? (negative : Bool) (text : List Char) : Option (Json × List Char) :=
  match takeWhole? text with
  | none => none
  | some (whole, rest) =>
      match takeFraction? rest with
      | none => none
      | some (fraction, rest) =>
          match takeExponent? rest with
          | none => none
          | some (exponent, rest) =>
              if fraction.isEmpty && exponent.isNone then
                some (ofInteger negative whole, rest)
              else
                some (ofReal (Decimal.estimate negative
                  (.ofDigits whole fraction (exponent.getD 0))), rest)

/-- A number. -/
def readNumber? (text : List Char) : Option (Json × List Char) :=
  match text with
  | '-' :: rest => readUnsigned? true rest
  | _ => readUnsigned? false text

/-! ## Documents -/

/-- An object with one more field in front, if both the name and the object have a value. -/
def prependField (name : Option String) (value : Json) : Option (List (String × Json)) →
    Option (List (String × Json))
  | some fields => name.map fun name => (name, value) :: fields
  | none => none

/-- An object, unless the name of one of its fields has no value. -/
def ofFields : Option (List (String × Json)) → Json
  | some fields => .object fields
  | none => .unreadable

mutual

/-- A document, after any blanks. -/
def readValue : Nat → List Char → Option (Json × List Char)
  | 0, _ => none
  | fuel + 1, text =>
      match skipBlanks text with
      | 'n' :: 'u' :: 'l' :: 'l' :: rest => some (.null, rest)
      | 't' :: 'r' :: 'u' :: 'e' :: rest => some (.bool true, rest)
      | 'f' :: 'a' :: 'l' :: 's' :: 'e' :: rest => some (.bool false, rest)
      | '"' :: rest =>
          match readString? rest with
          | some (some value, rest) => some (.string value, rest)
          | some (none, rest) => some (.unreadable, rest)
          | none => none
      | '[' :: rest =>
          match skipBlanks rest with
          | ']' :: rest => some (.array [], rest)
          | _ =>
              match readItems fuel rest with
              | some (items, rest) => some (.array items, rest)
              | none => none
      | '\x7b' :: rest =>
          match skipBlanks rest with
          | '\x7d' :: rest => some (.object [], rest)
          | _ =>
              match readFields fuel rest with
              | some (fields, rest) => some (ofFields fields, rest)
              | none => none
      | text => readNumber? text

/-- The items of an array, at least one, up to the closing bracket. -/
def readItems : Nat → List Char → Option (List Json × List Char)
  | 0, _ => none
  | fuel + 1, text =>
      match readValue fuel text with
      | none => none
      | some (item, rest) =>
          match skipBlanks rest with
          | ']' :: rest => some ([item], rest)
          | ',' :: rest =>
              match readItems fuel rest with
              | some (items, rest) => some (item :: items, rest)
              | none => none
          | _ => none

/-- The fields of an object, at least one, up to the closing brace. -/
def readFields : Nat → List Char → Option (Option (List (String × Json)) × List Char)
  | 0, _ => none
  | fuel + 1, text =>
      match skipBlanks text with
      | '"' :: rest =>
          match readString? rest with
          | none => none
          | some (name, rest) =>
              match skipBlanks rest with
              | ':' :: rest =>
                  match readValue fuel rest with
                  | none => none
                  | some (value, rest) =>
                      match skipBlanks rest with
                      | '\x7d' :: rest => some (prependField name value (some []), rest)
                      | ',' :: rest =>
                          match readFields fuel rest with
                          | some (fields, rest) => some (prependField name value fields, rest)
                          | none => none
                      | _ => none
              | _ => none
      | _ => none

end

/-- The document that a text consists of, blanks around it apart. -/
def parse? (text : String) : Option Json :=
  let chars := text.toList
  match readValue (chars.length + 1) chars with
  | some (document, rest) => if (skipBlanks rest).isEmpty then some document else none
  | none => none

end Achievements.Json
