import Lexis.Span
import Lexis.Text.Quoted

/-!
# `Lexis.Problem`: what can be wrong with a source

A problem is a cause and the span it concerns. The texts for readers, a name, a message
and where there is one a tip, are functions of the cause.
-/

set_option autoImplicit false

namespace Lexis

/-- Why something was refused. -/
inductive Cause where
  /-- A number has more than one decimal point. -/
  | malformedNumber (literal : String)
  /-- The source ends inside as many block comments. -/
  | unterminatedComment (depth : Nat)
  /-- A quoted literal of a kind, given by its word, has no closing quote. -/
  | unterminatedLiteral (kind : String)
  /-- A span starts past the end of a source of `size` bytes. -/
  | spanOutOfBounds (start size : Nat)
  /-- A path does not lead to a regular file. -/
  | invalidPath (path : String)
  /-- A file could not be read as text. -/
  | unreadableSource (path reason : String)
  deriving DecidableEq, Repr, Inhabited

namespace Cause

/-- The name of a cause. -/
def name : Cause → String
  | malformedNumber .. => "MalformedNumber"
  | unterminatedComment .. => "UnterminatedBlockComment"
  | unterminatedLiteral .. => "UnterminatedLiteral"
  | spanOutOfBounds .. => "SpanOutOfBounds"
  | invalidPath .. => "InvalidPath"
  | unreadableSource .. => "UnreadableSource"

/-- A cause in one phrase. Texts from outside stand between quotes, except for the kind of
a literal and the reason of a failed read. -/
def message : Cause → String
  | malformedNumber literal => "malformed number literal: " ++ Text.quoted literal
  | unterminatedComment depth =>
    "unterminated block comment (depth " ++ toString depth ++ ")"
  | unterminatedLiteral kind => "unterminated " ++ kind ++ " literal"
  | spanOutOfBounds start size =>
    "span starting at " ++ toString start ++ " is past the end of a " ++ toString size
      ++ " byte source"
  | invalidPath path => "invalid input path " ++ Text.quoted path
  | unreadableSource path reason => "failed to read " ++ Text.quoted path ++ ": " ++ reason

/-- What to do about a cause. Texts from outside stand as they are. -/
def tip? : Cause → Option String
  | malformedNumber literal =>
    some ("Invalid number: `" ++ literal ++ "`, a number may contain at most one `.`")
  | unterminatedComment depth =>
    some (toString depth
      ++ " block comment(s) still open at end of file, did you miss a `*/`?")
  | unterminatedLiteral kind => some ("Missing closing quote for " ++ kind ++ " literal")
  | spanOutOfBounds .. => none
  | invalidPath path => some ("`" ++ path ++ "` is not a file")
  | unreadableSource _ reason => some reason

end Cause

/-- A cause at a span. -/
structure Problem where
  cause : Cause
  span : Span
  deriving DecidableEq, Repr, Inhabited

namespace Problem

/-- A problem in one line. -/
def message (p : Problem) : String := p.cause.message ++ " at " ++ p.span.display

/-- The problem as many bytes further on. -/
def shift (p : Problem) (bytes : Nat) : Problem := { p with span := p.span.shift bytes }

end Problem

end Lexis
