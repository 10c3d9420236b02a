/-!
# `Lexis.Byte`: the classes of bytes

Scanning looks at single bytes. Every class holds ASCII bytes only, so a byte of a
character outside ASCII is in none of them, and a cut next to a byte of some class never
falls inside a character.
-/

set_option autoImplicit false

namespace Lexis.Byte

/-- Line feed. -/
def lineFeed : UInt8 := 0x0A

/-- Carriage return. -/
def carriageReturn : UInt8 := 0x0D

/-- Space. -/
def space : UInt8 := 0x20

/-- Double quote. -/
def doubleQuote : UInt8 := 0x22

/-- Single quote. -/
def singleQuote : UInt8 := 0x27

/-- Star, which opens and closes block comments beside a slash. -/
def star : UInt8 := 0x2A

/-- Full stop, the decimal point of numbers. -/
def dot : UInt8 := 0x2E

/-- Slash. -/
def slash : UInt8 := 0x2F

/-- Space, tab, line feed or carriage return. -/
def isBlank (b : UInt8) : Bool := b == space || b == 0x09 || b == lineFeed || b == carriageReturn

/-- A decimal digit. -/
def isDigit (b : UInt8) : Bool := 0x30 ≤ b && b ≤ 0x39

/-- A letter of either case. -/
def isLetter (b : UInt8) : Bool := 0x41 ≤ b && b ≤ 0x5A || 0x61 ≤ b && b ≤ 0x7A

/-- A letter or a digit. -/
def isAlphanumeric (b : UInt8) : Bool := isLetter b || isDigit b

/-- A byte that a word may start with: a letter or an underscore. -/
def startsWord (b : UInt8) : Bool := isLetter b || b == 0x5F

/-- A byte that a word may go on with: a letter, a digit or an underscore. -/
def continuesWord (b : UInt8) : Bool := isAlphanumeric b || b == 0x5F

/-- A byte of a number: a digit or a dot. -/
def continuesNumber (b : UInt8) : Bool := isDigit b || b == dot

/-- The symbols that operators and delimiters are written with. -/
def operatorSymbols : List UInt8 :=
  ['(', ')', '[', ']', '\x7b', '\x7d', '.', ',', ':', ';', '=', '+', '-', '*', '/', '%', '!',
    '?', '<', '>', '&', '|', '~', '^', '\x27', '\x22', '\x5c'].map Char.toUInt8

/-- A symbol that operators and delimiters are written with. -/
def isOperatorSymbol (b : UInt8) : Bool := operatorSymbols.contains b

end Lexis.Byte
