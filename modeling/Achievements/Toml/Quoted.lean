import Achievements.Text.Numeral

/-!
# Quoted strings

Strings stand in double quotes, with escapes, or in single quotes, without. Three quotes instead of
one allow for line breaks. Each reader starts after the opening quotes and gives the characters of
the string and the text after the closing quotes.
-/

set_option autoImplicit false

namespace Achievements.Toml

open Text

/-- A control character other than a tab. -/
def isControl (c : Char) : Bool :=
  (c.toNat < 0x20 && c != '\t') || c.toNat == 0x7F

/-- The character of a code point given by hexadecimal digits. -/
def charOfHex? (digits : List Char) : Option Char :=
  match readNat? 16 digits with
  | some code =>
      if code < 0xD800 ∨ 0xE000 ≤ code ∧ code ≤ 0x10FFFF then some (Char.ofNat code) else none
  | none => none

/-- The character that a one-letter escape stands for. -/
def shortEscape? (c : Char) : Option Char :=
  match c with
  | '"' => some '"'
  | '\\' => some '\\'
  | 'b' => some '\x08'
  | 'e' => some '\x1b'
  | 'f' => some '\x0c'
  | 'n' => some '\n'
  | 'r' => some '\r'
  | 't' => some '\t'
  | _ => none

/-- A string with one more character in front, if both are there. -/
def prepend? (c : Option Char) (rest : Option (List Char × List Char)) :
    Option (List Char × List Char) :=
  match c, rest with
  | some c, some (chars, rest) => some (c :: chars, rest)
  | _, _ => none

/-- A string in double quotes. -/
def readBasic? : List Char → Option (List Char × List Char)
  | [] => none
  | '"' :: rest => some ([], rest)
  | '\\' :: 'x' :: a :: b :: rest => prepend? (charOfHex? [a, b]) (readBasic? rest)
  | '\\' :: 'u' :: a :: b :: c :: d :: rest =>
      prepend? (charOfHex? [a, b, c, d]) (readBasic? rest)
  | '\\' :: 'U' :: a :: b :: c :: d :: e :: f :: g :: h :: rest =>
      prepend? (charOfHex? [a, b, c, d, e, f, g, h]) (readBasic? rest)
  | '\\' :: c :: rest => prepend? (shortEscape? c) (readBasic? rest)
  | c :: rest => if isControl c then none else prepend? (some c) (readBasic? rest)

/-- A string in single quotes. -/
def readLiteral? : List Char → Option (List Char × List Char)
  | [] => none
  | '\'' :: rest => some ([], rest)
  | c :: rest => if isControl c then none else prepend? (some c) (readLiteral? rest)

/-- The text without a line break at its front. -/
def dropLineBreak : List Char → List Char
  | '\n' :: rest => rest
  | '\r' :: '\n' :: rest => rest
  | text => text

/-- Does nothing but blanks stand before the next line break? -/
def endsLine (text : List Char) : Bool :=
  match text.dropWhile fun c => c == ' ' || c == '\t' with
  | '\n' :: _ => true
  | '\r' :: '\n' :: _ => true
  | _ => false

/-- A string in three double quotes, of which up to two may stand at its very end. A backslash at
the end of a line takes away the line break and all blanks and line breaks after it, which are
passed over while `joining`. -/
def readLongBasic? : Bool → List Char → Option (List Char × List Char)
  | _, [] => none
  | true, ' ' :: rest => readLongBasic? true rest
  | true, '\t' :: rest => readLongBasic? true rest
  | true, '\n' :: rest => readLongBasic? true rest
  | true, '\r' :: '\n' :: rest => readLongBasic? true rest
  | _, '"' :: '"' :: '"' :: '"' :: '"' :: rest => some (['"', '"'], rest)
  | _, '"' :: '"' :: '"' :: '"' :: rest => some (['"'], rest)
  | _, '"' :: '"' :: '"' :: rest => some ([], rest)
  | _, '\\' :: 'x' :: a :: b :: rest => prepend? (charOfHex? [a, b]) (readLongBasic? false rest)
  | _, '\\' :: 'u' :: a :: b :: c :: d :: rest =>
      prepend? (charOfHex? [a, b, c, d]) (readLongBasic? false rest)
  | _, '\\' :: 'U' :: a :: b :: c :: d :: e :: f :: g :: h :: rest =>
      prepend? (charOfHex? [a, b, c, d, e, f, g, h]) (readLongBasic? false rest)
  | _, '\\' :: c :: rest =>
      if endsLine (c :: rest) then readLongBasic? true (c :: rest)
      else prepend? (shortEscape? c) (readLongBasic? false rest)
  | _, '\n' :: rest => prepend? (some '\n') (readLongBasic? false rest)
  | _, '\r' :: '\n' :: rest =>
      prepend? (some '\r') (prepend? (some '\n') (readLongBasic? false rest))
  | _, c :: rest => if isControl c then none else prepend? (some c) (readLongBasic? false rest)

/-- A string in three single quotes, of which up to two may stand at its very end. -/
def readLongLiteral? : List Char → Option (List Char × List Char)
  | [] => none
  | '\'' :: '\'' :: '\'' :: '\'' :: '\'' :: rest => some (['\'', '\''], rest)
  | '\'' :: '\'' :: '\'' :: '\'' :: rest => some (['\''], rest)
  | '\'' :: '\'' :: '\'' :: rest => some ([], rest)
  | '\n' :: rest => prepend? (some '\n') (readLongLiteral? rest)
  | '\r' :: '\n' :: rest => prepend? (some '\r') (prepend? (some '\n') (readLongLiteral? rest))
  | c :: rest => if isControl c then none else prepend? (some c) (readLongLiteral? rest)

/-- A string of either kind on one line, with its quotes. -/
def readShortString? : List Char → Option (List Char × List Char)
  | '"' :: rest => readBasic? rest
  | '\'' :: rest => readLiteral? rest
  | _ => none

/-- A string of any kind, with its quotes. A line break right after three opening quotes does not
belong to it. -/
def readString? : List Char → Option (List Char × List Char)
  | '"' :: '"' :: '"' :: rest => readLongBasic? false (dropLineBreak rest)
  | '\'' :: '\'' :: '\'' :: rest => readLongLiteral? (dropLineBreak rest)
  | text => readShortString? text

end Achievements.Toml
