/-!
# `Lexis.Token.Kind`: reserved words, symbols and the kinds of tokens

A word is a keyword when its whole spelling is reserved, and a byte is a symbol when it is
in the table of symbols. Both tables are read in either direction.

* `Keyword.ofSpelling?_eq_some_iff`: looking a spelling up undoes spelling a keyword.
* `Symbol.ofByte?_eq_some_iff`: looking a byte up undoes writing a symbol.
-/

set_option autoImplicit false

namespace Lexis

/-- The reserved words. -/
inductive Keyword where
  | letKw | mutKw | returnKw | ifKw | elseKw | forKw | inKw | continueKw | breakKw | fnKw
  | externKw | structKw | asKw | inoutKw | implKw | pubKw | traitKw | implementsKw
  | implicitKw | consumeKw | loopKw
  deriving DecidableEq, Repr, Inhabited

namespace Keyword

/-- Every reserved word. -/
def all : List Keyword :=
  [.letKw, .mutKw, .returnKw, .ifKw, .elseKw, .forKw, .inKw, .continueKw, .breakKw, .fnKw,
    .externKw, .structKw, .asKw, .inoutKw, .implKw, .pubKw, .traitKw, .implementsKw,
    .implicitKw, .consumeKw, .loopKw]

/-- A reserved word as it stands in a source. -/
def spelling : Keyword → String
  | letKw => "let"
  | mutKw => "mut"
  | returnKw => "return"
  | ifKw => "if"
  | elseKw => "else"
  | forKw => "for"
  | inKw => "in"
  | continueKw => "continue"
  | breakKw => "break"
  | fnKw => "fn"
  | externKw => "extern"
  | structKw => "struct"
  | asKw => "as"
  | inoutKw => "inout"
  | implKw => "impl"
  | pubKw => "pub"
  | traitKw => "trait"
  | implementsKw => "implements"
  | implicitKw => "implicit"
  | consumeKw => "consume"
  | loopKw => "loop"

/-- The name of a reserved word in listings of tokens. -/
def name : Keyword → String
  | letKw => "Let"
  | mutKw => "Mut"
  | returnKw => "Return"
  | ifKw => "If"
  | elseKw => "Else"
  | forKw => "For"
  | inKw => "In"
  | continueKw => "Continue"
  | breakKw => "Break"
  | fnKw => "Fn"
  | externKw => "Extern"
  | structKw => "Struct"
  | asKw => "As"
  | inoutKw => "InOut"
  | implKw => "Impl"
  | pubKw => "Pub"
  | traitKw => "Trait"
  | implementsKw => "Implements"
  | implicitKw => "Implicit"
  | consumeKw => "Consume"
  | loopKw => "Loop"

/-- The reserved word with a spelling. -/
def ofSpelling? (word : String) : Option Keyword := all.find? (·.spelling == word)

/-- Looking a spelling up undoes spelling a keyword. No two keywords share a spelling, so the
search finds the only one there can be. -/
theorem ofSpelling?_eq_some_iff (word : String) (k : Keyword) :
    ofSpelling? word = some k ↔ k.spelling = word := by
  constructor
  · intro h
    have hfound := List.find?_some h
    exact beq_iff_eq.mp hfound
  · rintro rfl
    cases k <;> decide

end Keyword

/-- The operators and delimiters, one byte each. -/
inductive Symbol where
  | semicolon | comma | dot | openParen | closeParen | openBracket | closeBracket
  | openBrace | closeBrace | at | pound | tilde | question | colon | dollar | equals | bang
  | less | greater | plus | minus | ampersand | bar | star | slash | caret | percent
  deriving DecidableEq, Repr, Inhabited

namespace Symbol

/-- Every symbol. -/
def all : List Symbol :=
  [.semicolon, .comma, .dot, .openParen, .closeParen, .openBracket, .closeBracket,
    .openBrace, .closeBrace, .at, .pound, .tilde, .question, .colon, .dollar, .equals, .bang,
    .less, .greater, .plus, .minus, .ampersand, .bar, .star, .slash, .caret, .percent]

/-- The character that a symbol is written with. -/
def char : Symbol → Char
  | semicolon => ';'
  | comma => ','
  | dot => '.'
  | openParen => '('
  | closeParen => ')'
  | openBracket => '['
  | closeBracket => ']'
  | openBrace => '\x7b'
  | closeBrace => '\x7d'
  | .at => '@'
  | pound => '#'
  | tilde => '~'
  | question => '?'
  | colon => ':'
  | dollar => '$'
  | equals => '='
  | bang => '!'
  | less => '<'
  | greater => '>'
  | plus => '+'
  | minus => '-'
  | ampersand => '&'
  | bar => '|'
  | star => '*'
  | slash => '/'
  | caret => '^'
  | percent => '%'

/-- The byte that a symbol is written with. All symbols are ASCII. -/
def byte (s : Symbol) : UInt8 := s.char.toUInt8

/-- The name of a symbol in listings of tokens. -/
def name : Symbol → String
  | semicolon => "Semicolon"
  | comma => "Comma"
  | dot => "Dot"
  | openParen => "OpenParen"
  | closeParen => "CloseParen"
  | openBracket => "OpenBracket"
  | closeBracket => "CloseBracket"
  | openBrace => "OpenBrace"
  | closeBrace => "CloseBrace"
  | .at => "At"
  | pound => "Pound"
  | tilde => "Tilde"
  | question => "Question"
  | colon => "Colon"
  | dollar => "Dollar"
  | equals => "Eq"
  | bang => "Bang"
  | less => "Lt"
  | greater => "Gt"
  | plus => "Plus"
  | minus => "Minus"
  | ampersand => "And"
  | bar => "Or"
  | star => "Star"
  | slash => "Slash"
  | caret => "Caret"
  | percent => "Percent"

/-- The symbol that a byte is. -/
def ofByte? (b : UInt8) : Option Symbol := all.find? (·.byte == b)

/-- Looking a byte up undoes writing a symbol. No two symbols share a byte, so the search finds
the only one there can be. -/
theorem ofByte?_eq_some_iff (b : UInt8) (s : Symbol) : ofByte? b = some s ↔ s.byte = b := by
  constructor
  · intro h
    have hfound := List.find?_some h
    exact beq_iff_eq.mp hfound
  · rintro rfl
    cases s <;> decide

end Symbol

/-- What a token is, without its text. -/
inductive TokenKind where
  | lineComment
  | blockComment
  | ident
  | keyword (word : Keyword)
  | literal
  | symbol (sign : Symbol)
  /-- A byte that no token begins with, or a number with two dots. -/
  | unknown
  deriving DecidableEq, Repr, Inhabited

namespace TokenKind

/-- Every kind. -/
def all : List TokenKind :=
  [.lineComment, .blockComment, .ident] ++ Keyword.all.map .keyword ++ [.literal]
    ++ Symbol.all.map .symbol ++ [.unknown]

/-- The name of a kind in listings of tokens. -/
def name : TokenKind → String
  | lineComment => "LineComment"
  | blockComment => "BlockComment"
  | ident => "Ident"
  | keyword word => word.name
  | literal => "Literal"
  | symbol sign => sign.name
  | unknown => "Unknown"

/-- The kind with a name. -/
def ofName? (text : String) : Option TokenKind := all.find? (·.name == text)

/-- Whether the kind is a reserved word. -/
def isKeyword : TokenKind → Bool
  | keyword _ => true
  | _ => false

/-- Whether the kind is an operator or a delimiter. -/
def isSymbol : TokenKind → Bool
  | symbol _ => true
  | _ => false

/-- Whether the kind is a comment of either form. -/
def isComment : TokenKind → Bool
  | lineComment | blockComment => true
  | _ => false

/-- The character that an operator or a delimiter is written with. -/
def symbolChar? : TokenKind → Option Char
  | symbol sign => some sign.char
  | _ => none

/-- A kind is found again by its name: no two kinds share one, a keyword's and a symbol's names
included. -/
theorem ofName?_name (kind : TokenKind) : ofName? kind.name = some kind := by
  rcases kind with _ | _ | _ | k | _ | s | _
  case keyword => cases k <;> decide +kernel
  case symbol => cases s <;> decide +kernel
  all_goals decide +kernel

end TokenKind

end Lexis
