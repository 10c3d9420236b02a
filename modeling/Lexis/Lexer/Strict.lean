import Lexis.Lexer.Run

/-!
# `Lexis.Lexer.Strict`: all tokens or one problem

The strict reading of a source refuses it for a problem. A problem that was recorded while
lexing goes before a quoted literal without its closing quote, which lexing records
nowhere, wherever in the source the two stand.
-/

set_option autoImplicit false

namespace Lexis

/-- The problem of a quoted literal that has no closing quote. -/
def Token.unterminated? (t : Token) : Option Problem := do
  let literal ← t.literal?
  if literal.isTerminated? == some false then
    some ⟨.unterminatedLiteral literal.kind.word, t.span⟩
  else none

/-- All tokens of a source, unless there is a problem. -/
def tokenize (source : Source) (config : Config) : Checked (Except Problem (List Token)) := do
  let (tokens, behind) ← (Lexer.start source config).drain
  match behind.problems[0]? with
  | some problem => return .error problem
  | none =>
    match tokens.findSome? Token.unterminated? with
    | some problem => return .error problem
    | none => return .ok tokens

end Lexis
