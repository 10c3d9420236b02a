import Lexis.Proofs.LexemeText
import Lexis.Proofs.Scan

/-!
# `Lexis.Proofs.LongestMatch`: the tokens of a source, described without a lexer

`Tokenizes` says what the tokens of bytes are, in the manner of a manual: blanks are skipped,
and what stands behind them is matched as far as it goes (`Matches`). It knows no cursor, no
recorded problems and no text of tokens, only their shapes and spans. The theorems:

* `matches_of_endsBefore`, `exists_endsBefore_of_matches`: the matches are the lexemes, and
  their outlines are those of the readings.
* `tokenizes_iff_eq_outlines`: bytes have one tokenization, that of the lexemes in them.
* `drains_iff_tokenizes`: draining a lexer gives the tokens that the description asks for, and
  the description admits no others.
-/

set_option autoImplicit false

namespace Lexis

/-! ### The description -/

/-- What a token is, without its text. -/
inductive Shape where
  | keyword (kind : TokenKind)
  | symbol (kind : TokenKind)
  | ident
  | number (kind : NumberKind)
  | quoted (quote : Quote) (isTerminated : Bool)
  | comment (kind : CommentKind)
  | unknown
  deriving DecidableEq, Repr

/-- The shape of a payload. -/
def Payload.shape : Payload → Shape
  | keyword kind => .keyword kind
  | symbol kind => .symbol kind
  | ident _ => .ident
  | literal (.number kind _ _) => .number kind
  | literal (.quoted quote _ isTerminated) => .quoted quote isTerminated
  | comment c => .comment c.kind
  | unknown _ => .unknown

/-- A shape and the bytes that it takes. -/
structure Outline where
  shape : Shape
  span : Span
  deriving DecidableEq, Repr

/-- The outline of a token. -/
def Token.outline (t : Token) : Outline := ⟨t.payload.shape, t.span⟩

/-- The span of a quoted literal of `width` bytes, quotes included, at `offset`. The text
between the quotes has `length` bytes. -/
def QuoteSpan.span (offset width length : Nat) : QuoteSpan → Span
  | content => ⟨offset + 1, length⟩
  | delimited => ⟨offset, width⟩

/-- The longest match at the front of `text ++ rest` is `text`, and it has an outline unless no
token comes of it. The first byte of `text` has the offset `offset`. Each rule gives the bytes of
one kind of token, what must not come behind them, and the span: this is the manual's account, and
it computes nothing. -/
inductive Matches (config : Config) (offset : Nat) :
    (text rest : List UInt8) → Option Outline → Prop where
  | keyword {b : UInt8} {run rest : List UInt8} (word : Keyword) (hb : Byte.startsWord b = true)
      (hrun : LongestRun Byte.continuesWord run rest)
      (hword : b :: run = Text.bytes word.spelling) :
      Matches config offset (b :: run) rest
        (some ⟨.keyword (.keyword word), ⟨offset, (b :: run).length⟩⟩)
  | ident {b : UInt8} {run rest : List UInt8} (hb : Byte.startsWord b = true)
      (hrun : LongestRun Byte.continuesWord run rest)
      (hfree : ∀ word : Keyword, b :: run ≠ Text.bytes word.spelling) :
      Matches config offset (b :: run) rest (some ⟨.ident, ⟨offset, (b :: run).length⟩⟩)
  | int {b : UInt8} {run rest : List UInt8} (hb : Byte.isDigit b = true)
      (hrun : LongestRun Byte.continuesNumber run rest) (hdots : (b :: run).count Byte.dot = 0) :
      Matches config offset (b :: run) rest (some ⟨.number .int, ⟨offset, (b :: run).length⟩⟩)
  | float {b : UInt8} {run rest : List UInt8} (hb : Byte.isDigit b = true)
      (hrun : LongestRun Byte.continuesNumber run rest) (hdots : (b :: run).count Byte.dot = 1) :
      Matches config offset (b :: run) rest (some ⟨.number .float, ⟨offset, (b :: run).length⟩⟩)
  | malformed {b : UInt8} {run rest : List UInt8} (hb : Byte.isDigit b = true)
      (hrun : LongestRun Byte.continuesNumber run rest) (hdots : 2 ≤ (b :: run).count Byte.dot)
      (hmode : config.malformedNumber = .errorToken) :
      Matches config offset (b :: run) rest (some ⟨.unknown, ⟨offset, (b :: run).length⟩⟩)
  | suppressed {b : UInt8} {run rest : List UInt8} (hb : Byte.isDigit b = true)
      (hrun : LongestRun Byte.continuesNumber run rest) (hdots : 2 ≤ (b :: run).count Byte.dot)
      (hmode : config.malformedNumber = .suppress) :
      Matches config offset (b :: run) rest none
  | terminated (quote : Quote) {value rest : List UInt8}
      (hrun : LongestRun (fun b => b != quote.byte && b != Byte.lineFeed) value
        (quote.byte :: rest)) :
      Matches config offset (quote.byte :: value ++ [quote.byte]) rest
        (some ⟨.quoted quote true, config.quoteSpan.span offset (value.length + 2) value.length⟩)
  | unterminated (quote : Quote) {value rest : List UInt8}
      (hrun : LongestRun (fun b => b != quote.byte && b != Byte.lineFeed) value rest)
      (hopen : rest.head? ≠ some quote.byte) :
      Matches config offset (quote.byte :: value) rest
        (some ⟨.quoted quote false, config.quoteSpan.span offset (value.length + 1) value.length⟩)
  | lineComment {body rest : List UInt8} (hcomments : config.comments = true)
      (hrun : LongestRun (· != Byte.lineFeed) body rest) :
      Matches config offset (Byte.slash :: Byte.slash :: body) rest
        (some ⟨.comment .line, ⟨offset, body.length + 2⟩⟩)
  | closedComment {body rest : List UInt8} (hcomments : config.comments = true)
      (hcounts : Counts 1 0 (marks body)) :
      Matches config offset (Byte.slash :: Byte.star :: body) rest
        (some ⟨.comment .block, ⟨offset, body.length + 2⟩⟩)
  | openComment {body : List UInt8} {depth : Nat} (hcomments : config.comments = true)
      (hcounts : Counts 1 (depth + 1) (marks body)) :
      Matches config offset (Byte.slash :: Byte.star :: body) []
        (some ⟨.comment .block, ⟨offset, body.length + 2⟩⟩)
  | symbol {b : UInt8} {rest : List UInt8} (sign : Symbol)
      (halone : Lexeme.StandsAlone config.comments b rest) (hsign : sign.byte = b) :
      Matches config offset [b] rest (some ⟨.symbol (.symbol sign), ⟨offset, 1⟩⟩)
  | unknown {b : UInt8} {rest : List UInt8}
      (halone : Lexeme.StandsAlone config.comments b rest)
      (hsign : ∀ sign : Symbol, sign.byte ≠ b) :
      Matches config offset [b] rest (some ⟨.unknown, ⟨offset, 1⟩⟩)

/-- The tokens of bytes, the first of which has the offset `offset`. Blanks are skipped, a match
adds its outline, and a match without one ends the list, as does the end of the bytes. -/
inductive Tokenizes (config : Config) : (offset : Nat) → List UInt8 → List Outline → Prop where
  | done {offset : Nat} : Tokenizes config offset [] []
  | blank {offset : Nat} {b : UInt8} {rest : List UInt8} {outlines : List Outline}
      (hb : Byte.isBlank b = true) (hrest : Tokenizes config (offset + 1) rest outlines) :
      Tokenizes config offset (b :: rest) outlines
  | token {offset : Nat} {text rest : List UInt8} {outline : Outline} {outlines : List Outline}
      (htext : Matches config offset text rest (some outline))
      (hrest : Tokenizes config (offset + text.length) rest outlines) :
      Tokenizes config offset (text ++ rest) (outline :: outlines)
  | stop {offset : Nat} {text rest : List UInt8} (htext : Matches config offset text rest none) :
      Tokenizes config offset (text ++ rest) []

/-! ### The matches are the lexemes -/

namespace Lexeme

variable (config : Config) (offset : Nat)

/-- The outline of the token that a lexeme comes to, if a token comes of it. -/
def outline? (lexeme : Lexeme) : Option Outline :=
  (lexeme.readAt config offset).token.map Token.outline

/-- A word with the letters of a keyword is that keyword. The letters have to be the same, byte
for byte, and all of them. -/
theorem outline?_word_of_reserved {letters : List UInt8} (h : Text.Encoded letters) (word : Keyword)
    (hword : letters = Text.bytes word.spelling) :
    outline? config offset (.word letters)
      = some ⟨.keyword (.keyword word), ⟨offset, letters.length⟩⟩ := by
  have hreserved := (ofSpelling?_decode_eq_some_iff h word).mpr hword
  simp [outline?, readAt, reading, wordPayload, hreserved]
  rfl

/-- A word with the letters of no keyword is an identifier, also where a keyword is only a part of
it. -/
theorem outline?_word_of_free {letters : List UInt8} (h : Text.Encoded letters)
    (hfree : ∀ word : Keyword, letters ≠ Text.bytes word.spelling) :
    outline? config offset (.word letters) = some ⟨.ident, ⟨offset, letters.length⟩⟩ := by
  -- A word that was found would be spelled with these bytes.
  have hnone : Keyword.ofSpelling? (Text.decode letters) = none := by
    cases hword : Keyword.ofSpelling? (Text.decode letters) with
    | none => rfl
    | some word => exact absurd ((ofSpelling?_decode_eq_some_iff h word).mp hword) (hfree word)
  simp [outline?, readAt, reading, wordPayload, hnone]
  rfl

/-- A number without a dot is an integer. -/
theorem outline?_number_of_zero {run : List UInt8} (h : run.count Byte.dot = 0) :
    outline? config offset (.number run) = some ⟨.number .int, ⟨offset, run.length⟩⟩ := by
  simp [outline?, readAt, reading, numberKind?, h]
  rfl

/-- A number with one dot is a float, wherever in it the dot stands. -/
theorem outline?_number_of_one {run : List UInt8} (h : run.count Byte.dot = 1) :
    outline? config offset (.number run) = some ⟨.number .float, ⟨offset, run.length⟩⟩ := by
  simp [outline?, readAt, reading, numberKind?, h]
  rfl

/-- A number with more dots is unknown where it makes a token, and spans the whole run, with all
the dots and digits. -/
theorem outline?_number_of_errorToken {run : List UInt8} (h : 2 ≤ run.count Byte.dot)
    (hmode : config.malformedNumber = .errorToken) :
    outline? config offset (.number run) = some ⟨.unknown, ⟨offset, run.length⟩⟩ := by
  have hzero : run.count Byte.dot ≠ 0 := by omega
  have hone : run.count Byte.dot ≠ 1 := by omega
  simp [outline?, readAt, reading, numberKind?, hzero, hone, hmode]
  rfl

/-- A number with more dots has no outline where it is suppressed, and the run is over. -/
theorem outline?_number_of_suppress {run : List UInt8} (h : 2 ≤ run.count Byte.dot)
    (hmode : config.malformedNumber = .suppress) :
    outline? config offset (.number run) = none := by
  have hzero : run.count Byte.dot ≠ 0 := by omega
  have hone : run.count Byte.dot ≠ 1 := by omega
  simp [outline?, readAt, reading, numberKind?, hzero, hone, hmode]

/-- A literal has its quote and whether it is terminated, and the span that the choice about
quotes gives it. -/
theorem outline?_quoted (quote : Quote) (value : List UInt8) (isTerminated : Bool) :
    outline? config offset (.quoted quote value isTerminated)
      = some ⟨.quoted quote isTerminated, config.quoteSpan.span offset
          (Lexeme.quoted quote value isTerminated).width value.length⟩ := by
  simp [outline?, readAt, reading, covered]
  cases config.quoteSpan <;> rfl

/-- A block comment spans all of its bytes, whether it is closed or not. -/
theorem outline?_blockComment (isDoc : Bool) (content : List UInt8) (depth : Nat) :
    outline? config offset (.blockComment isDoc content depth)
      = some ⟨.comment .block, ⟨offset, (Lexeme.blockComment isDoc content depth).width⟩⟩ := by
  rw [outline?, readAt, reading]
  split <;> rfl

/-- A byte that writes a symbol is that symbol. -/
theorem outline?_single_of_symbol {b : UInt8} (sign : Symbol) (h : sign.byte = b) :
    outline? config offset (.single b) = some ⟨.symbol (.symbol sign), ⟨offset, 1⟩⟩ := by
  have hsign := (Symbol.ofByte?_eq_some_iff b sign).mpr h
  simp [outline?, readAt, reading, singlePayload, hsign]
  rfl

/-- A byte that writes no symbol is unknown, be it ASCII or a part of another character. -/
theorem outline?_single_of_unknown {b : UInt8} (h : ∀ sign : Symbol, sign.byte ≠ b) :
    outline? config offset (.single b) = some ⟨.unknown, ⟨offset, 1⟩⟩ := by
  have hnone : Symbol.ofByte? b = none := by
    cases hsign : Symbol.ofByte? b with
    | none => rfl
    | some sign => exact absurd ((Symbol.ofByte?_eq_some_iff b sign).mp hsign) (h sign)
  simp [outline?, readAt, reading, singlePayload, hnone]
  rfl

/-! Words, numbers and single bytes come to more than one kind of match each. -/

variable {config} {offset} {b : UInt8} {run rest : List UInt8}

/-- A longest run of word bytes is matched as what the word comes to: as a keyword if some keyword
has its letters, and as an identifier otherwise. -/
theorem matches_word (hb : Byte.startsWord b = true)
    (hrun : LongestRun Byte.continuesWord run rest) :
    Matches config offset (b :: run) rest (outline? config offset (.word (b :: run))) := by
  have hencoded := encoded_word hb hrun
  by_cases hreserved : ∃ word : Keyword, b :: run = Text.bytes word.spelling
  · obtain ⟨word, hword⟩ := hreserved
    rw [outline?_word_of_reserved config offset hencoded word hword]
    exact .keyword word hb hrun hword
  · have hfree : ∀ word : Keyword, b :: run ≠ Text.bytes word.spelling := by
      intro word hword
      exact hreserved ⟨word, hword⟩
    rw [outline?_word_of_free config offset hencoded hfree]
    exact .ident hb hrun hfree

/-- A longest run of digits and dots is matched as what the number comes to. How many dots there
are decides, and beyond one the configuration does. -/
theorem matches_number (hb : Byte.isDigit b = true)
    (hrun : LongestRun Byte.continuesNumber run rest) :
    Matches config offset (b :: run) rest (outline? config offset (.number (b :: run))) := by
  by_cases hzero : (b :: run).count Byte.dot = 0
  · rw [outline?_number_of_zero config offset hzero]
    exact .int hb hrun hzero
  by_cases hone : (b :: run).count Byte.dot = 1
  · rw [outline?_number_of_one config offset hone]
    exact .float hb hrun hone
  -- With more dots it is for the configuration to say whether there is a token.
  have hdots : 2 ≤ (b :: run).count Byte.dot := by omega
  cases hmode : config.malformedNumber with
  | errorToken =>
      rw [outline?_number_of_errorToken config offset hdots hmode]
      exact .malformed hb hrun hdots hmode
  | suppress =>
      rw [outline?_number_of_suppress config offset hdots hmode]
      exact .suppressed hb hrun hdots hmode

/-- A byte that stands alone is matched as a symbol or as unknown, whichever it comes to. There is
no third case, as `Symbol.ofByte?` has an answer or none. -/
theorem matches_single (halone : StandsAlone config.comments b rest) :
    Matches config offset [b] rest (outline? config offset (.single b)) := by
  by_cases hsymbol : ∃ sign : Symbol, sign.byte = b
  · obtain ⟨sign, hsign⟩ := hsymbol
    rw [outline?_single_of_symbol config offset sign hsign]
    exact .symbol sign halone hsign
  · have hsign : ∀ sign : Symbol, sign.byte ≠ b := by
      intro sign h
      exact hsymbol ⟨sign, h⟩
    rw [outline?_single_of_unknown config offset hsign]
    exact .unknown halone hsign

end Lexeme

/-- A lexeme that ends before the rest is the longest match there, with its outline. The rules for
lexemes and those for matches differ in the marks of doc comments only, which the description of
tokens does not know. -/
theorem matches_of_endsBefore {config : Config} (offset : Nat) {lexeme : Lexeme}
    {rest : List UInt8} (h : Lexeme.EndsBefore config.comments lexeme rest) :
    Matches config offset lexeme.spelling rest (lexeme.outline? config offset) := by
  cases h with
  | word hb hrun => exact Lexeme.matches_word hb hrun
  | number hb hrun => exact Lexeme.matches_number hb hrun
  | @terminated quote value _ hrun =>
      rw [Lexeme.outline?_quoted, Lexeme.width_terminated]
      exact .terminated quote hrun
  | @unterminated quote value _ hrun hopen =>
      rw [Lexeme.outline?_quoted, Lexeme.width_unterminated, Lexeme.spelling_unterminated]
      exact .unterminated quote hrun hopen
  | @lineComment isDoc content _ hcomments hdoc hrun =>
      -- The description does not tell the mark of a doc comment from the content.
      have hbody : LongestRun (· != Byte.lineFeed) (Lexeme.docSlash isDoc ++ content) rest := by
        refine hrun.prepend ?_
        intro b hb
        rw [Lexeme.mem_docSlash hb]
        decide
      exact .lineComment hcomments hbody
  | @closedComment isDoc content _ hcomments hdoc hnest =>
      have hbody := (Lexeme.nests_closed_iff hdoc).mpr hnest
      rw [Lexeme.outline?_blockComment, Lexeme.width, Lexeme.spelling_closedComment]
      exact .closedComment hcomments (nests_iff_counts.mp hbody)
  | @openComment isDoc content depth hcomments hdoc hnest =>
      have hbody := (Lexeme.nests_open_iff hdoc).mpr hnest
      rw [Lexeme.outline?_blockComment, Lexeme.width, Lexeme.spelling_openComment]
      exact .openComment hcomments (nests_iff_counts.mp hbody)
  | single halone => exact Lexeme.matches_single halone

/-- The rest of a line behind two slashes, taken apart behind the mark of a doc comment. The
description by bytes knows of no mark, and the lexeme keeps it apart from its content. -/
theorem exists_docSlash_of_longestRun {body rest : List UInt8}
    (h : LongestRun (· != Byte.lineFeed) body rest) :
    ∃ isDoc content, body = Lexeme.docSlash isDoc ++ content ∧
      Lexeme.marksDocLine (Lexeme.docSlash isDoc ++ content ++ rest) = isDoc := by
  cases hdoc : Lexeme.marksDocLine (body ++ rest) with
  | false => exact ⟨false, body, rfl, hdoc⟩
  | true =>
      cases body with
      | nil =>
          -- The line is empty, and a line feed is not the mark of a doc comment.
          rw [Lexeme.marksDocLine, Bool.and_eq_true, beq_iff_eq, ← List.head?_eq_getElem?] at hdoc
          have hslash := h.beyond Byte.slash hdoc.1
          simp at hslash
          exact absurd hslash (by decide)
      | cons b content =>
          have hb : b = Byte.slash := by
            simp only [Lexeme.marksDocLine, Bool.and_eq_true, beq_iff_eq] at hdoc
            simpa using hdoc.1
          subst hb
          exact ⟨true, content, rfl, hdoc⟩

/-- A block comment behind its slash and star, taken apart behind the mark of a doc comment
and in front of the closer. -/
theorem exists_docStar_of_nests {body : List UInt8} (h : Nests 1 0 body) (rest : List UInt8) :
    ∃ isDoc content, body = Lexeme.docStar isDoc ++ content ++ [Byte.star, Byte.slash] ∧
      Lexeme.marksDocBlock (Lexeme.docStar isDoc ++ content ++ [Byte.star, Byte.slash] ++ rest)
        = isDoc ∧
      Nests 1 0 (content ++ [Byte.star, Byte.slash]) := by
  obtain ⟨text, rfl⟩ := h.exists_closer
  cases hdoc : Lexeme.marksDocBlock (text ++ [Byte.star, Byte.slash] ++ rest) with
  | false => exact ⟨false, text, rfl, hdoc, h⟩
  | true =>
      cases text with
      | nil =>
          -- The star of the closer is not the mark of a doc comment.
          simp [Lexeme.marksDocBlock] at hdoc
      | cons b content =>
          have hb : b = Byte.star := by
            simp only [Lexeme.marksDocBlock, Bool.and_eq_true, beq_iff_eq] at hdoc
            simpa using hdoc.1.1
          subst hb
          have hmark : Lexeme.marksDocBlock
              (Lexeme.docStar true ++ content ++ [Byte.star, Byte.slash] ++ rest) = true := hdoc
          exact ⟨true, content, rfl, hdoc, (Lexeme.nests_closed_iff hmark).mp h⟩

/-- A longest match is a lexeme that ends before the rest, with its outline. Where a comment
matches, the mark of a doc comment has to be found in it first. -/
theorem exists_endsBefore_of_matches {config : Config} {offset : Nat} {text rest : List UInt8}
    {outline? : Option Outline} (h : Matches config offset text rest outline?) :
    ∃ lexeme : Lexeme, lexeme.spelling = text ∧ Lexeme.EndsBefore config.comments lexeme rest ∧
      lexeme.outline? config offset = outline? := by
  cases h with
  | keyword word hb hrun hword =>
      exact ⟨.word _, rfl, .word hb hrun,
        Lexeme.outline?_word_of_reserved config offset (Lexeme.encoded_word hb hrun) word hword⟩
  | ident hb hrun hfree =>
      exact ⟨.word _, rfl, .word hb hrun,
        Lexeme.outline?_word_of_free config offset (Lexeme.encoded_word hb hrun) hfree⟩
  | int hb hrun hdots =>
      exact ⟨.number _, rfl, .number hb hrun, Lexeme.outline?_number_of_zero config offset hdots⟩
  | float hb hrun hdots =>
      exact ⟨.number _, rfl, .number hb hrun, Lexeme.outline?_number_of_one config offset hdots⟩
  | malformed hb hrun hdots hmode =>
      exact ⟨.number _, rfl, .number hb hrun,
        Lexeme.outline?_number_of_errorToken config offset hdots hmode⟩
  | suppressed hb hrun hdots hmode =>
      exact ⟨.number _, rfl, .number hb hrun,
        Lexeme.outline?_number_of_suppress config offset hdots hmode⟩
  | @terminated quote value _ hrun =>
      refine ⟨.quoted quote value true, Lexeme.spelling_terminated quote value,
        .terminated hrun, ?_⟩
      rw [Lexeme.outline?_quoted, Lexeme.width_terminated]
  | @unterminated quote value _ hrun hopen =>
      refine ⟨.quoted quote value false, Lexeme.spelling_unterminated quote value,
        .unterminated hrun hopen, ?_⟩
      rw [Lexeme.outline?_quoted, Lexeme.width_unterminated]
  | @lineComment body _ hcomments hrun =>
      -- A lexeme keeps the mark of a doc comment and the content apart.
      obtain ⟨isDoc, content, rfl, hdoc⟩ := exists_docSlash_of_longestRun hrun
      exact ⟨.lineComment isDoc content, rfl, .lineComment hcomments hdoc hrun.of_append, rfl⟩
  | @closedComment body _ hcomments hcounts =>
      obtain ⟨isDoc, content, rfl, hdoc, hnest⟩ :=
        exists_docStar_of_nests (nests_iff_counts.mpr hcounts) rest
      refine ⟨.blockComment isDoc content 0, Lexeme.spelling_closedComment isDoc content,
        .closedComment hcomments hdoc hnest, ?_⟩
      rw [Lexeme.outline?_blockComment, Lexeme.width, Lexeme.spelling_closedComment]
      rfl
  | @openComment body depth hcomments hcounts =>
      obtain ⟨isDoc, content, rfl, hdoc⟩ := Lexeme.exists_docStar_append body
      have hnest := (Lexeme.nests_open_iff hdoc).mp (nests_iff_counts.mpr hcounts)
      refine ⟨.blockComment isDoc content (depth + 1),
        Lexeme.spelling_openComment isDoc content depth, .openComment hcomments hdoc hnest, ?_⟩
      rw [Lexeme.outline?_blockComment, Lexeme.width, Lexeme.spelling_openComment]
      rfl
  | symbol sign halone hsign =>
      exact ⟨.single _, rfl, .single halone,
        Lexeme.outline?_single_of_symbol config offset sign hsign⟩
  | unknown halone hsign =>
      exact ⟨.single _, rfl, .single halone,
        Lexeme.outline?_single_of_unknown config offset hsign⟩

/-! ### The tokenization -/

namespace Lexeme

variable {config : Config} {offset : Nat}

/-- The outlines of the tokens that a run finds in bytes. It takes the steps that the rules of
`Tokenizes` describe, one lemma each. -/
def outlines (config : Config) (offset : Nat) (bytes : List UInt8) : List Outline :=
  ((readings config offset bytes).filterMap (·.token)).map Token.outline

/-- No bytes have no tokens. -/
theorem outlines_nil : outlines config offset [] = [] := by
  rw [outlines, readings_nil]
  rfl

/-- A blank has no token, and moves what comes behind it by one byte, on the side of the lexer as
in the description. -/
theorem outlines_cons_of_isBlank {b : UInt8} (hb : Byte.isBlank b = true) (rest : List UInt8) :
    outlines config offset (b :: rest) = outlines config (offset + 1) rest := by
  rw [outlines, readings_cons_of_isBlank hb]
  rfl

/-- A lexeme with an outline gives it as the first one. The outlines of what follows are shifted
by as many bytes as the lexeme has. -/
theorem outlines_spelling_append {lexeme : Lexeme} {rest : List UInt8} {outline : Outline}
    (h : EndsBefore config.comments lexeme rest)
    (houtline : lexeme.outline? config offset = some outline) :
    outlines config offset (lexeme.spelling ++ rest)
      = outline :: outlines config (offset + lexeme.width) rest := by
  obtain ⟨t, htoken, rfl⟩ := Option.map_eq_some_iff.mp houtline
  rw [outlines, readings_of_some h htoken, List.filterMap_cons_some htoken, List.map_cons]
  rfl

/-- A lexeme without an outline ends the run, and what stands behind it comes to nothing. -/
theorem outlines_of_none {lexeme : Lexeme} {rest : List UInt8}
    (h : EndsBefore config.comments lexeme rest) (houtline : lexeme.outline? config offset = none) :
    outlines config offset (lexeme.spelling ++ rest) = [] := by
  have htoken : (lexeme.readAt config offset).token = none := Option.map_eq_none_iff.mp houtline
  rw [outlines, readings_of_none h htoken, List.filterMap_cons_none htoken]
  rfl

end Lexeme

/-- Bytes have one tokenization, that of their readings. One direction is an induction on the
description, the other one on the scan; each rule meets the step of its kind. -/
theorem tokenizes_iff_eq_outlines {config : Config} {offset : Nat} {bytes : List UInt8}
    {outlines : List Outline} :
    Tokenizes config offset bytes outlines ↔ outlines = Lexeme.outlines config offset bytes := by
  constructor
  · -- Each rule of the description is one step of the scan.
    intro h
    induction h with
    | done => exact Lexeme.outlines_nil.symm
    | blank hb _ ih => rw [ih, Lexeme.outlines_cons_of_isBlank hb]
    | token htext _ ih =>
        obtain ⟨lexeme, rfl, hends, houtline⟩ := exists_endsBefore_of_matches htext
        rw [ih, Lexeme.outlines_spelling_append hends houtline]
        rfl
    | stop htext =>
        obtain ⟨lexeme, rfl, hends, houtline⟩ := exists_endsBefore_of_matches htext
        exact (Lexeme.outlines_of_none hends houtline).symm
  · -- Each step of the scan is one rule of the description, the one for the lexeme there.
    rintro rfl
    induction offset, bytes using Lexeme.scan_induction config.comments with
    | nil offset =>
        rw [Lexeme.outlines_nil]
        exact .done
    | blank offset b rest hb ih =>
        rw [Lexeme.outlines_cons_of_isBlank hb]
        exact .blank hb ih
    | lexeme offset lexeme rest hends ih =>
        have hmatch := matches_of_endsBefore offset hends
        cases houtline : lexeme.outline? config offset with
        | none =>
            rw [houtline] at hmatch
            rw [Lexeme.outlines_of_none hends houtline]
            exact .stop hmatch
        | some outline =>
            rw [houtline] at hmatch
            rw [Lexeme.outlines_spelling_append hends houtline]
            exact .token hmatch ih

/-- Draining a lexer gives the tokens that the description asks for, and the description admits no
others. This holds of every source and every choice, and the tokens are there: draining cannot
fail. -/
theorem drains_iff_tokenizes (source : Source) (config : Config) :
    ∃ tokens problems, Lexer.Drains source config tokens problems ∧
      ∀ outlines, Tokenizes config 0 source.bytes outlines
        ↔ outlines = tokens.map Token.outline := by
  refine ⟨_, _, Lexer.drains_readings source config, ?_⟩
  intro outlines
  exact tokenizes_iff_eq_outlines

end Lexis
