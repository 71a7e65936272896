import Achievements.Toml.Quoted
import Achievements.Toml.Scalar
import Achievements.Toml.Tree

/-!
# Statements of configuration files

A file consists of statements, one to a line: headers of tables, and values under dotted names.
Values in brackets and braces may go over several lines and be nested to a fixed depth.
-/

set_option autoImplicit false

namespace Achievements.Toml

/-- A statement. Its names are not empty. -/
inductive Statement where
  /-- The header of a table. -/
  | table (path : List String)
  /-- The header of one of several tables of one name. -/
  | item (path : List String)
  | value (path : List String) (value : Value)

/-! ## Blanks and comments -/

/-- The text after its leading blanks. -/
def skipBlanks (text : List Char) : List Char :=
  text.dropWhile fun c => c == ' ' || c == '\t'

/-- The text after its leading blanks, line breaks and comments; inside a comment no control
characters are allowed. -/
def skipFiller? : Bool → List Char → Option (List Char)
  | _, [] => some []
  | _, '\n' :: rest => skipFiller? false rest
  | _, '\r' :: '\n' :: rest => skipFiller? false rest
  | true, c :: rest => if isControl c then none else skipFiller? true rest
  | false, ' ' :: rest => skipFiller? false rest
  | false, '\t' :: rest => skipFiller? false rest
  | false, '#' :: rest => skipFiller? true rest
  | false, text => some text

/-- Does the line end here, blanks and a comment apart? -/
def atLineEnd (text : List Char) : Bool :=
  match skipBlanks text with
  | [] => true
  | '#' :: _ => true
  | '\n' :: _ => true
  | '\r' :: '\n' :: _ => true
  | _ => false

/-! ## Names -/

/-- Can the character be in a name without quotes? -/
def isNameChar (c : Char) : Bool :=
  c.isAlphanum || c == '_' || c == '-'

/-- A name, with or without quotes. -/
def readName? (text : List Char) : Option (String × List Char) :=
  let bare := text.takeWhile isNameChar
  if bare.isEmpty then
    (readShortString? text).map fun (chars, rest) => (String.ofList chars, rest)
  else some (String.ofList bare, text.dropWhile isNameChar)

/-- Names with dots between them, and the text after the blanks that follow. -/
def readPath? : Nat → List Char → Option (List String × List Char)
  | 0, _ => none
  | fuel + 1, text =>
      match readName? (skipBlanks text) with
      | none => none
      | some (name, rest) =>
          match skipBlanks rest with
          | '.' :: rest => (readPath? fuel rest).map fun (path, rest) => (name :: path, rest)
          | rest => some ([name], rest)

/-! ## Values -/

/-- The fields of a table in braces. -/
def inlineFields? (pairs : List (List String × Value)) : Option Fields :=
  pairs.foldlM (fun fields (path, value) => Fields.assign value true path fields) []

/-- A table in braces. -/
def inlineTable? (pairs : List (List String × Value)) : Option Value :=
  (inlineFields? pairs).map (.table .inline)

/-- How deep brackets and braces may be nested. -/
def maximalDepth : Nat := 79

mutual

/-- A value. At most `depth` brackets and braces may be open inside each other. -/
def readValue? : Nat → Nat → List Char → Option (Value × List Char)
  | 0, _, _ => none
  | fuel + 1, depth, text =>
      match text with
      | '[' :: rest =>
          match depth with
          | 0 => none
          | depth + 1 =>
              (readItems? fuel depth rest).map fun (items, rest) => (.array items, rest)
      | '\x7b' :: rest =>
          match depth with
          | 0 => none
          | depth + 1 => do
              let (pairs, rest) ← readPairs? fuel depth rest
              let table ← inlineTable? pairs
              some (table, rest)
      | '"' :: _ =>
          (readString? text).map fun (chars, rest) => (.text (String.ofList chars), rest)
      | '\'' :: _ =>
          (readString? text).map fun (chars, rest) => (.text (String.ofList chars), rest)
      | _ => do
          let (scalar, rest) := takeScalar text
          let value ← readScalar? scalar
          some (value, rest)

/-- The items of an array up to its closing bracket. The last one may be followed by a comma. -/
def readItems? : Nat → Nat → List Char → Option (List Value × List Char)
  | 0, _, _ => none
  | fuel + 1, depth, text => do
      match ← skipFiller? false text with
      | ']' :: rest => some ([], rest)
      | text =>
          let (item, rest) ← readValue? fuel depth text
          match ← skipFiller? false rest with
          | ']' :: rest => some ([item], rest)
          | ',' :: rest =>
              let (items, rest) ← readItems? fuel depth rest
              some (item :: items, rest)
          | _ => none

/-- The named values of a table up to its closing brace. The last one may be followed by a
comma. -/
def readPairs? : Nat → Nat → List Char → Option (List (List String × Value) × List Char)
  | 0, _, _ => none
  | fuel + 1, depth, text => do
      match ← skipFiller? false text with
      | '\x7d' :: rest => some ([], rest)
      | text =>
          let (path, rest) ← readPath? fuel text
          match rest with
          | '=' :: rest =>
              let (value, rest) ← readValue? fuel depth (skipBlanks rest)
              match ← skipFiller? false rest with
              | '\x7d' :: rest => some ([(path, value)], rest)
              | ',' :: rest =>
                  let (pairs, rest) ← readPairs? fuel depth rest
                  some ((path, value) :: pairs, rest)
              | _ => none
          | _ => none

end

/-! ## Lines -/

/-- A statement and the text after it. -/
def readStatement? (fuel : Nat) (text : List Char) : Option (Statement × List Char) :=
  match text with
  | '[' :: '[' :: rest =>
      match readPath? fuel rest with
      | some (path, ']' :: ']' :: rest) => some (.item path, rest)
      | _ => none
  | '[' :: rest =>
      match readPath? fuel rest with
      | some (path, ']' :: rest) => some (.table path, rest)
      | _ => none
  | _ =>
      match readPath? fuel text with
      | some (path, '=' :: rest) =>
          (readValue? fuel maximalDepth (skipBlanks rest)).map fun (value, rest) =>
            (.value path value, rest)
      | _ => none

/-- The statements of a text. -/
def readStatements? : Nat → List Char → Option (List Statement)
  | 0, _ => none
  | fuel + 1, text => do
      match ← skipFiller? false text with
      | [] => some []
      | text =>
          let (statement, rest) ← readStatement? (2 * text.length + 2) text
          if atLineEnd rest then
            let statements ← readStatements? fuel rest
            some (statement :: statements)
          else none

end Achievements.Toml
