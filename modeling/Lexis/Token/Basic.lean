import Lexis.Span
import Lexis.Token.Kind
import Lexis.Token.Literal

/-!
# `Lexis.Token.Basic`: tokens

A token is what stands at a span of the source. What it says is its payload, so two tokens
that differ only in where they stand have one payload.
-/

set_option autoImplicit false

namespace Lexis

/-- The two forms of comments. -/
inductive CommentKind where
  /-- From two slashes up to the end of the line. -/
  | line
  /-- Between a slash with a star and a star with a slash, possibly nested. -/
  | block
  deriving DecidableEq, Repr, Inhabited

/-- A comment, with the text between its delimiters. The mark of a doc comment is a part of
the opening delimiter. -/
structure Comment where
  kind : CommentKind
  isDoc : Bool
  content : String
  deriving DecidableEq, Repr, Inhabited

/-- What a token says. -/
inductive Payload where
  | keyword (kind : TokenKind)
  | symbol (kind : TokenKind)
  | ident (name : String)
  | literal (literal : Literal)
  | comment (comment : Comment)
  /-- Input that is no token, kept for messages. -/
  | unknown (text : String)
  deriving DecidableEq, Repr, Inhabited

namespace Payload

/-- The kind of token that a payload makes. -/
def kind : Payload → TokenKind
  | keyword kind | symbol kind => kind
  | ident _ => .ident
  | literal _ => .literal
  | comment ⟨.line, _, _⟩ => .lineComment
  | comment ⟨.block, _, _⟩ => .blockComment
  | unknown _ => .unknown

/-- The literal of a payload that is one. -/
def literal? : Payload → Option Literal
  | literal l => some l
  | _ => none

/-- Whether the payload is a literal. -/
def isLiteral : Payload → Bool
  | literal _ => true
  | _ => false

/-- Whether the payload is an identifier. -/
def isIdent : Payload → Bool
  | ident _ => true
  | _ => false

/-- Whether the payload is a comment. -/
def isComment : Payload → Bool
  | comment _ => true
  | _ => false

/-- What a listing of tokens says about a payload. -/
def display : Payload → String
  | comment c => "Comment (doc: " ++ toString c.isDoc ++ ")"
  | literal l => l.display
  | ident name => "Identifier: " ++ name
  | payload => "Punct: " ++ payload.kind.name

end Payload

/-- What stands at a span of the source. -/
structure Token where
  payload : Payload
  span : Span
  deriving DecidableEq, Repr, Inhabited

namespace Token

/-- The kind of a token. -/
def kind (t : Token) : TokenKind := t.payload.kind

/-- The literal of a token that is one. -/
def literal? (t : Token) : Option Literal := t.payload.literal?

/-- Whether a parser can step over the token without a change of meaning. -/
def isTrivia (t : Token) : Bool := t.payload.isComment

/-- The token as many bytes further on. -/
def shift (t : Token) (bytes : Nat) : Token := { t with span := t.span.shift bytes }

/-- The line for a token in listings. -/
def display (t : Token) : String := t.payload.display ++ " (" ++ t.span.display ++ ")"

end Token

end Lexis
