import Lexis.TokenStream

/-!
# `Lexis.Event`: what lexing reports as it goes

Each token is reported after it was scanned, and each problem of lexing before the token
that it concerns. A stream reports how much it holds when it is complete. What is reported
can be read off the results: nothing else is recorded for it.
-/

set_option autoImplicit false

namespace Lexis

/-- Something that was done. -/
inductive Event where
  /-- A token was scanned. -/
  | scanned (kind : TokenKind) (span : Span)
  /-- A number with more than one dot was met. The first dot is at the offset `firstDot`. -/
  | malformedNumber (literal : String) (span : Span) (firstDot : Nat) (mode : MalformedNumber)
  /-- The source ended inside of block comments. -/
  | unterminatedComment (span : Span) (depth : Nat)
  /-- A stream was completed. -/
  | materialized (tokens problems : Nat)
  /-- A file was loaded. -/
  | loaded (path : String) (bytes lines : Nat)
  deriving DecidableEq, Repr

namespace Event

/-- How much is asked of a listener to hear of an event. -/
inductive Level where
  | debug | trace
  deriving DecidableEq, Repr

/-- The name of a level. -/
def Level.name : Level → String
  | debug => "DEBUG"
  | trace => "TRACE"

/-- A value that an event reports. -/
inductive Value where
  | number (n : Nat)
  | text (s : String)
  deriving DecidableEq, Repr

/-- The level of an event. Tokens are reported to the closest listeners only. -/
def level : Event → Level
  | scanned .. => .trace
  | _ => .debug

/-- The part of the program that an event comes from. -/
def target : Event → String
  | loaded .. => "erys::session"
  | _ => "erys::lexer"

/-- An event in words. -/
def message : Event → String
  | scanned .. => "Scanned token"
  | malformedNumber .. => "Malformed number literal"
  | unterminatedComment .. => "Unterminated block comment"
  | materialized .. => "Materialized token stream"
  | loaded .. => "Loaded source"

/-- The values that an event reports, by name. -/
def fields : Event → List (String × Value)
  | scanned kind span => [("kind", .text kind.name), ("span", .text span.display)]
  | malformedNumber literal span firstDot mode =>
    [("literal", .text literal), ("span", .text span.display),
      ("first_dot", .text ("Some(" ++ toString firstDot ++ ")")), ("mode", .text mode.name)]
  | unterminatedComment span depth =>
    [("span", .text span.display), ("depth", .number depth)]
  | materialized tokens problems =>
    [("tokens", .number tokens), ("errors", .number problems)]
  | loaded path bytes lines =>
    [("path", .text path), ("bytes", .number bytes), ("lines", .number lines)]

/-- The report of a problem, if it is one that lexing reports. -/
def ofProblem? (mode : MalformedNumber) (problem : Problem) : Option Event :=
  match problem.cause with
  | .malformedNumber literal =>
    let firstDot := problem.span.start + (Text.bytes literal).idxOf Byte.dot
    some (.malformedNumber literal problem.span firstDot mode)
  | .unterminatedComment depth => some (.unterminatedComment problem.span depth)
  | _ => none

/-- The reports of asking for a token once, read off the token and the lexer before and
after. -/
def ofNext (before after : Lexer) (token : Option Token) : List Event :=
  let problems := after.problems.toList.drop before.problems.size
  problems.filterMap (ofProblem? before.config.malformedNumber)
    ++ token.toList.map fun t => scanned t.kind t.span

end Event

/-- The reports of draining a lexer, behind those of `done`. -/
def Lexer.eventsFrom (done : Array Event) (l : Lexer) : Checked (List Event) :=
  match _h : l.next with
  | .error fault => .error fault
  | .ok (none, behind) => .ok (done ++ Event.ofNext l behind none).toList
  | .ok (some t, behind) => eventsFrom (done ++ Event.ofNext l behind (some t)) behind
termination_by l.rest.length
decreasing_by exact length_rest_of_next _h

/-- The reports of draining a lexer. -/
def Lexer.events (l : Lexer) : Checked (List Event) := l.eventsFrom #[]

/-- The reports of making a stream of a lexer. -/
def TokenStream.events (l : Lexer) : Checked (List Event) := do
  let events ← l.events
  let stream ← ofLexer l
  return events ++ [.materialized stream.length stream.problems.length]

end Lexis
