/-!
# Blank characters

The characters of the Unicode property `White_Space`, and the removal of blanks from either end of
a text. Core's `Char.isWhitespace` knows only part of the property.
-/

set_option autoImplicit false

namespace Achievements.Text

/-- Does the character have the Unicode property `White_Space`? -/
def isBlank (c : Char) : Bool :=
  let code := c.toNat
  (9 ≤ code && code ≤ 13) || code == 0x20 || code == 0x85 || code == 0xA0 || code == 0x1680 ||
    (0x2000 ≤ code && code ≤ 0x200A) || code == 0x2028 || code == 0x2029 || code == 0x202F ||
    code == 0x205F || code == 0x3000

/-- The text without its leading blanks. -/
def trimStart (text : List Char) : List Char :=
  text.dropWhile isBlank

/-- The text without its trailing blanks. -/
def trimEnd (text : List Char) : List Char :=
  (text.reverse.dropWhile isBlank).reverse

/-- The text without the blanks at both ends. -/
def trim (text : List Char) : List Char :=
  trimEnd (trimStart text)

theorem length_trimStart_le (text : List Char) : (trimStart text).length ≤ text.length :=
  (List.dropWhile_sublist isBlank).length_le

theorem length_trimEnd_le (text : List Char) : (trimEnd text).length ≤ text.length := by
  have shorter := (List.dropWhile_sublist isBlank (l := text.reverse)).length_le
  simpa [trimEnd] using shorter

end Achievements.Text
