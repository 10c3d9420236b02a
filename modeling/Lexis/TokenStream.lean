import Lexis.Lexer.Run

/-!
# `Lexis.TokenStream`: tokens with a cursor that moves both ways

A stream holds all tokens of a lexer at once, with the problems the lexer has recorded. Its
cursor stands between two tokens, or at either end.
-/

set_option autoImplicit false

namespace Lexis

/-- Tokens, problems, and how many of the tokens stand before the cursor. -/
structure TokenStream where
  tokens : List Token := []
  problems : List Problem := []
  position : Nat := 0
  deriving DecidableEq, Repr, Inhabited

namespace TokenStream

/-- The tokens ahead of a lexer, with all problems it has recorded by the end of them. -/
def ofLexer (l : Lexer) : Checked TokenStream := do
  let (tokens, behind) ← l.drain
  return { tokens := tokens, problems := behind.problems.toList }

/-- The token after the cursor. -/
def peek (s : TokenStream) : Option Token := s.tokens[s.position]?

/-- The token after the cursor, and the stream with the cursor behind it. At the end the
cursor stays. -/
def next (s : TokenStream) : Option Token × TokenStream :=
  match s.peek with
  | none => (none, s)
  | some t => (some t, { s with position := s.position + 1 })

/-- The token before the cursor, and the stream with the cursor in front of it. At the start
the cursor stays. -/
def prev (s : TokenStream) : Option Token × TokenStream :=
  match s.position with
  | 0 => (none, s)
  | position + 1 => (s.tokens[position]?, { s with position := position })

/-- The stream with the cursor at the start. -/
def reset (s : TokenStream) : TokenStream := { s with position := 0 }

/-- The number of tokens, on either side of the cursor. -/
def length (s : TokenStream) : Nat := s.tokens.length

/-- Whether there are no tokens. -/
def isEmpty (s : TokenStream) : Bool := s.tokens.isEmpty

/-- The stream without comments, with the cursor at the start. -/
def withoutTrivia (s : TokenStream) : TokenStream :=
  { s with tokens := s.tokens.filter (!·.isTrivia), position := 0 }

end TokenStream

end Lexis
