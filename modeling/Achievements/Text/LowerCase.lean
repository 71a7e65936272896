import Achievements.Text.LowerCase.Table

/-!
# Lower case of any text

The full lower-case mapping of Unicode, without language-specific rules. Two characters are not
mapped by the table alone: capital I with a dot above becomes two characters, and capital sigma
becomes a final sigma at the end of a word. A sigma ends a word when a cased character precedes it
and none follows, case-ignorable characters being skipped on both sides.
-/

set_option autoImplicit false

namespace Achievements.Text.LowerCase

/-- Is the code point in one of the ranges? -/
def inRanges (ranges : List (Nat × Nat)) (code : Nat) : Bool :=
  ranges.any fun (first, last) => first ≤ code && code ≤ last

def isIgnorable (c : Char) : Bool := inRanges ignorableRanges c.toNat

def isCased (c : Char) : Bool := inRanges casedRanges c.toNat

/-- The lower case of one character, where it is one character. -/
def lowerChar (c : Char) : Char :=
  if c.toNat < 0x80 then c.toLower
  else
    let code := c.toNat
    match shifts.find? fun shift =>
        shift.first ≤ code && code ≤ shift.last && (code - shift.first) % shift.stride == 0 with
    | some shift => Char.ofNat (code + shift.offset).toNat
    | none => c

/-- Is the first character that is not case-ignorable a cased one? -/
def startsCased (text : List Char) : Bool :=
  match text.dropWhile isIgnorable with
  | [] => false
  | c :: _ => isCased c

/-- The lower case of `rest`, where `before` holds the characters already passed, latest first. -/
def lowerFrom : List Char → List Char → List Char
  | _, [] => []
  | before, c :: rest =>
      let mapped :=
        if c = 'Σ' then
          if startsCased before && !startsCased rest then ['ς'] else ['σ']
        else if c = 'İ' then ['i', Char.ofNat 0x307]
        else [lowerChar c]
      mapped ++ lowerFrom (c :: before) rest

end Achievements.Text.LowerCase

namespace Achievements.Text

/-- The lower case of a text. -/
def lowerCase (text : String) : String :=
  String.ofList (LowerCase.lowerFrom [] text.toList)

end Achievements.Text
