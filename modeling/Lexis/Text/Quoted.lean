import Lexis.Text.Unprintable

/-!
# `Lexis.Text.Quoted`: text between quotes, with escapes

`quoted` writes a text between double quotes so that every character of it can be seen.
The quote and the backslash take a backslash, four control characters have an escape of
one letter, and any other character that does not show by itself is written by its code
point, `\u{..}` in lower-case hexadecimal digits. All other characters stand as they are.
-/

set_option autoImplicit false

namespace Lexis.Text

/-- The hexadecimal digits of a number, in lower case and without leading zeros. -/
def hexDigits (n : Nat) : List Char := Nat.toDigits 16 n

/-- How a character is written between quotes. -/
def escape (c : Char) : List Char :=
  if c == '\x22' then ['\x5c', '\x22']
  else if c == '\x5c' then ['\x5c', '\x5c']
  else if c == '\n' then ['\x5c', 'n']
  else if c == '\r' then ['\x5c', 'r']
  else if c == '\t' then ['\x5c', 't']
  else if c == '\x00' then ['\x5c', '0']
  else if isUnprintable c then
    ['\x5c', 'u', '\x7b'] ++ hexDigits c.toNat ++ ['\x7d']
  else [c]

/-- The text between double quotes, escaped. -/
def quoted (text : String) : String :=
  String.ofList ('\x22' :: text.toList.flatMap escape ++ ['\x22'])

/-- Text of printable ASCII without quote and backslash stands between quotes unchanged. -/
example : quoted "1.2.3" = "\"1.2.3\"" := by decide +kernel

/-- Each kind of escape once. -/
example : quoted "\"\\\n\u00AD\u0301" = "\"\\\"\\\\\\n\\u\x7bad\x7d\\u\x7b301\x7d\"" := by
  decide +kernel

end Lexis.Text
