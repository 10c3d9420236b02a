import Lexis.Text.Unprintable

/-!
# `Lexis.Text.White`: white space at the end of a line

`trimEnd` takes the white space off the end of a text. White space is the Unicode property
White_Space, which holds more than the blanks between tokens (`Lexis.Byte.isBlank`): form
feeds, no-break spaces and the separators for lines and paragraphs are in it too.
-/

set_option autoImplicit false

namespace Lexis.Text

/-- The characters with the property White_Space. -/
def whiteRanges : List (Nat × Nat) := [
    (0x0009, 0x000D), (0x0020, 0x0020), (0x0085, 0x0085), (0x00A0, 0x00A0), (0x1680, 0x1680),
    (0x2000, 0x200A), (0x2028, 0x2029), (0x202F, 0x202F), (0x205F, 0x205F), (0x3000, 0x3000)]

/-- A character of white space. -/
def isWhite (c : Char) : Bool := inRanges whiteRanges c.toNat

/-- The text without the characters at its end that satisfy `drop`. -/
def dropEnd (drop : Char → Bool) (text : String) : String :=
  String.ofList (text.toList.reverse.dropWhile drop).reverse

/-- The text without white space at its end. -/
def trimEnd (text : String) : String := dropEnd isWhite text

end Lexis.Text
