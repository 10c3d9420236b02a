/-!
# `Lexis.Config`: choices of the lexer
-/

set_option autoImplicit false

namespace Lexis

/-- What becomes of a number with more than one decimal point. The problem is recorded in
either case. -/
inductive MalformedNumber where
  /-- It makes no token, and no token follows. -/
  | suppress
  /-- The whole run of digits and dots makes one unknown token. -/
  | errorToken
  deriving DecidableEq, Repr, Inhabited

/-- The name of a choice. -/
def MalformedNumber.name : MalformedNumber → String
  | suppress => "Suppress"
  | errorToken => "ErrorToken"

/-- Which bytes the span of a quoted literal covers. -/
inductive QuoteSpan where
  /-- Those between the quotes. -/
  | content
  /-- Those between the quotes and the quotes, the closing one if there is one. -/
  | delimited
  deriving DecidableEq, Repr, Inhabited

/-- The name of a choice. -/
def QuoteSpan.name : QuoteSpan → String
  | content => "Content"
  | delimited => "Delimited"

/-- The choices of the lexer. -/
structure Config where
  /-- Whether `//` and `/*` begin comments. Otherwise every slash is a symbol. -/
  comments : Bool := true
  malformedNumber : MalformedNumber := .suppress
  quoteSpan : QuoteSpan := .content
  deriving DecidableEq, Repr, Inhabited

/-- The choices under which every byte that is not blank lies in exactly one span. -/
def Config.lossless : Config := { malformedNumber := .errorToken, quoteSpan := .delimited }

end Lexis
