/-!
# `Lexis.Token.Literal`: numbers and quoted text

A literal keeps its text as the source has it: nothing is unescaped and no digit is
checked. Numbers have a base, and quoted literals know whether their closing quote was
found.
-/

set_option autoImplicit false

namespace Lexis

/-- The base of a number. -/
inductive Base where
  | binary | octal | hexadecimal | decimal
  deriving DecidableEq, Repr, Inhabited

/-- The name of a base. -/
def Base.name : Base → String
  | binary => "Binary"
  | octal => "Octal"
  | hexadecimal => "Hexadecimal"
  | decimal => "Decimal"

/-- A number without or with a decimal point. -/
inductive NumberKind where
  | int | float
  deriving DecidableEq, Repr, Inhabited

/-- The quotes around a literal: single for characters, double for strings. -/
inductive Quote where
  | char | string
  deriving DecidableEq, Repr, Inhabited

/-- A literal with its text, for quoted ones that between the quotes. -/
inductive Literal where
  | number (kind : NumberKind) (value : String) (base : Base)
  | quoted (quote : Quote) (value : String) (isTerminated : Bool)
  deriving DecidableEq, Repr, Inhabited

/-- The kinds of literals. -/
inductive LiteralKind where
  | int | float | char | string
  deriving DecidableEq, Repr, Inhabited

namespace LiteralKind

/-- The name of a kind of literals. -/
def name : LiteralKind → String
  | int => "Int"
  | float => "Float"
  | char => "Char"
  | string => "String"

/-- The word for a kind of literals in messages. -/
def word : LiteralKind → String
  | int => "int"
  | float => "float"
  | char => "char"
  | string => "string"

end LiteralKind

namespace Literal

/-- The kind of a literal. -/
def kind : Literal → LiteralKind
  | number .int .. => .int
  | number .float .. => .float
  | quoted .char .. => .char
  | quoted .string .. => .string

/-- The text of a literal. -/
def value : Literal → String
  | number _ value _ => value
  | quoted _ value _ => value

/-- Whether the literal is a number. -/
def isNumber : Literal → Bool
  | number .. => true
  | quoted .. => false

/-- The base of a number. -/
def base? : Literal → Option Base
  | number _ _ base => some base
  | quoted .. => none

/-- Whether a quoted literal has its closing quote. -/
def isTerminated? : Literal → Option Bool
  | number .. => none
  | quoted _ _ isTerminated => some isTerminated

/-- What follows the text of a literal in listings. -/
def remark : Literal → String
  | number _ _ base => " (base " ++ base.name ++ ")"
  | quoted _ _ isTerminated => " (terminated: " ++ toString isTerminated ++ ")"

/-- A literal in listings of tokens. -/
def display (l : Literal) : String := "Literal " ++ l.kind.word ++ ": " ++ l.value ++ l.remark

end Literal

end Lexis
