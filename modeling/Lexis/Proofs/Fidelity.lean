import Lexis.Proofs.LexemeText
import Lexis.Proofs.Scan

/-!
# `Lexis.Proofs.Fidelity`: payloads say what stands at their spans

A token keeps no bytes, only a span and a payload of decoded text. This file says how the
bytes at the span are written from the payload (`Spells`), and shows that nothing is lost on
the way: decoding is exact, since lexemes are cut between characters. The only exception is
a byte outside of ASCII that stands alone, for which U+FFFD is shown. The theorems:

* `Lexeme.rebuilt_of_encoded`: the bytes of a lexeme that is encoded are those its token spells.
* `Lexeme.mem_problems_iff`: a problem is recorded at the span of a lexeme if and only if it
  is the problem of that lexeme.
* `drains_faithful`: so it is for all tokens of a drained lexer.
-/

set_option autoImplicit false

namespace Lexis

open Text (Encoded)

/-! ### What a token spells -/

/-- The text of a quote. -/
def Quote.text : Quote → String
  | char => "'"
  | string => "\""

/-- The text that a token at a span spells with its payload. Whether a block comment is closed is
known from the problems that were recorded. Only a line comment leaves a choice, since its content
does not say whether a carriage return was left out. -/
inductive Spells (config : Config) (problems : List Problem) (span : Span) :
    Payload → String → Prop where
  | keyword (word : Keyword) :
      Spells config problems span (.keyword (.keyword word)) word.spelling
  | symbol {kind : TokenKind} {c : Char} (h : kind.symbolChar? = some c) :
      Spells config problems span (.symbol kind) (String.singleton c)
  | ident (name : String) : Spells config problems span (.ident name) name
  | number (kind : NumberKind) (value : String) (base : Base) :
      Spells config problems span (.literal (.number kind value base)) value
  | content (quote : Quote) (value : String) (isTerminated : Bool)
      (h : config.quoteSpan = .content) :
      Spells config problems span (.literal (.quoted quote value isTerminated)) value
  | delimited (quote : Quote) (value : String) (isTerminated : Bool)
      (h : config.quoteSpan = .delimited) :
      Spells config problems span (.literal (.quoted quote value isTerminated))
        (quote.text ++ value ++ if isTerminated then quote.text else "")
  | lineComment (isDoc : Bool) (content : String) {tail : String} (h : tail = "" ∨ tail = "\r") :
      Spells config problems span (.comment ⟨.line, isDoc, content⟩)
        ("//" ++ (if isDoc then "/" else "") ++ content ++ tail)
  | closedComment (isDoc : Bool) (content : String)
      (h : ∀ depth, ⟨.unterminatedComment depth, span⟩ ∉ problems) :
      Spells config problems span (.comment ⟨.block, isDoc, content⟩)
        ("/*" ++ (if isDoc then "*" else "") ++ content ++ "*/")
  | openComment (isDoc : Bool) (content : String) {depth : Nat}
      (h : ⟨.unterminatedComment depth, span⟩ ∈ problems) :
      Spells config problems span (.comment ⟨.block, isDoc, content⟩)
        ("/*" ++ (if isDoc then "*" else "") ++ content)
  | unknown (text : String) : Spells config problems span (.unknown text) text

/-- The bytes at the span of a token are those of the text that it spells, and they are whole
characters. Or else they are one byte outside of ASCII, and the token shows U+FFFD for it. That
both ends are boundaries of characters is stated by the standard library's notion of one. -/
inductive Faithful (source : Source) (config : Config) (problems : List Problem) (t : Token) :
    Prop where
  | spelled {text : String} (htext : Spells config problems t.span t.payload text)
      (hslice : source.slice t.span.start t.span.stop = Text.bytes text)
      (hstart : (⟨t.span.start⟩ : String.Pos.Raw).IsValid source.text)
      (hstop : (⟨t.span.stop⟩ : String.Pos.Raw).IsValid source.text)
  | replaced {b : UInt8} (hb : 0x80 ≤ b) (hlength : t.span.length = 1)
      (hslice : source.slice t.span.start t.span.stop = [b])
      (hpayload : t.payload = .unknown "\uFFFD")

/-- The name, value or content of a payload. Keywords and symbols keep no text, and the text of an
unknown token may stand for a byte that is none. -/
def Payload.text? : Payload → Option String
  | ident name => some name
  | literal l => some l.value
  | comment c => some c.content
  | _ => none

/-! ### Texts at a span -/

/-- The text stands in the source at the span. The texts in front of it and behind it are there as
well, so the span cuts no character. -/
def Source.Holds (source : Source) (span : Span) (text : String) : Prop :=
  ∃ front behind, source.text = front ++ text ++ behind ∧
    span = ⟨front.utf8ByteSize, text.utf8ByteSize⟩

namespace Source

variable {source : Source}

/-- The bytes of a source are those of a text. -/
theorem encoded_bytes (source : Source) : Encoded source.bytes := ⟨_, source.bytes_eq⟩

/-- A part of the bytes is cut out by its place and its length. This is the form in which lexemes
are placed in a source: what is in front, the lexeme, and what follows. -/
theorem slice_append {front part rest : List UInt8} (h : source.bytes = front ++ (part ++ rest)) :
    source.slice front.length (front.length + part.length) = part := by
  rw [slice, h, List.drop_left, Nat.add_sub_cancel_left, List.take_left]

/-- Encoded bytes in front and behind make a part of the source a text of it. Without them the
part might begin or end within a character of the source. -/
theorem Holds.of_bytes {front rest : List UInt8} {text : String}
    (h : source.bytes = front ++ (Text.bytes text ++ rest)) (hfront : Encoded front)
    (hrest : Encoded rest) : source.Holds ⟨front.length, (Text.bytes text).length⟩ text := by
  obtain ⟨before, rfl⟩ := hfront
  obtain ⟨behind, rfl⟩ := hrest
  refine ⟨before, behind, Text.bytes_injective ?_, ?_⟩
  · rw [← source.bytes_eq, h, Text.bytes_append, Text.bytes_append, List.append_assoc]
  · rw [Text.length_bytes, Text.length_bytes]

/-- The bytes of a source whose text has three parts. -/
theorem bytes_of_text {front text behind : String} (h : source.text = front ++ text ++ behind) :
    source.bytes = Text.bytes front ++ (Text.bytes text ++ Text.bytes behind) := by
  rw [source.bytes_eq, h, Text.bytes_append, Text.bytes_append, List.append_assoc]

/-- The bytes at the span are those of the text, so that a text in a source can be compared byte
for byte. -/
theorem Holds.slice_eq {span : Span} {text : String} (h : source.Holds span text) :
    source.slice span.start span.stop = Text.bytes text := by
  obtain ⟨front, behind, htext, rfl⟩ := h
  have hslice := slice_append (bytes_of_text htext)
  rw [Text.length_bytes, Text.length_bytes] at hslice
  exact hslice

/-- The source finds the text by its span, which `Source.textBetween?` does only for whole
characters. -/
theorem Holds.textBetween?_eq {span : Span} {text : String} (h : source.Holds span text) :
    source.textBetween? span.start span.stop = some text := by
  have hslice := h.slice_eq
  obtain ⟨front, behind, htext, rfl⟩ := h
  have hahead : source.bytes.drop front.utf8ByteSize = Text.bytes (text ++ behind) := by
    rw [bytes_of_text htext, ← Text.length_bytes, List.drop_left, Text.bytes_append]
  have hbehind : (Text.bytes (text ++ behind)).drop text.utf8ByteSize = Text.bytes behind := by
    rw [Text.bytes_append, ← Text.length_bytes, List.drop_left]
  have hstop : front.utf8ByteSize + text.utf8ByteSize ≤ source.size := by
    rw [size, htext, String.utf8ByteSize_append, String.utf8ByteSize_append]
    omega
  -- Both ends are where an encoded text begins, so no character is cut there.
  have hcut := (Text.encoded_bytes (text ++ behind)).atCharacter
  have hcut' := (Text.encoded_bytes behind).atCharacter
  unfold textBetween?
  unfold slice at hslice
  simp only [Span.stop, Nat.add_sub_cancel_left, hahead] at hslice ⊢
  simp [hslice, hbehind, hcut, hcut', hstop, Text.decode_bytes]

/-- The text starts at the boundary of a character, with a whole text in front of it. -/
theorem Holds.isValid_start {span : Span} {text : String} (h : source.Holds span text) :
    (⟨span.start⟩ : String.Pos.Raw).IsValid source.text := by
  obtain ⟨front, behind, htext, rfl⟩ := h
  rw [String.Pos.Raw.isValid_iff_exists_append]
  exact ⟨front, text ++ behind, by rw [htext, String.append_assoc], rfl⟩

/-- The text stops at the boundary of a character, with a whole text behind it. -/
theorem Holds.isValid_stop {span : Span} {text : String} (h : source.Holds span text) :
    (⟨span.stop⟩ : String.Pos.Raw).IsValid source.text := by
  obtain ⟨front, behind, htext, rfl⟩ := h
  rw [String.Pos.Raw.isValid_iff_exists_append]
  refine ⟨front ++ text, behind, htext, ?_⟩
  rw [String.Pos.Raw.ext_iff, String.byteIdx_rawEndPos, String.utf8ByteSize_append]
  rfl

end Source

/-! ### From lexemes to payloads -/

namespace Lexeme

/-- Every symbol is ASCII. -/
theorem ascii_symbol (sign : Symbol) : sign.byte < 0x80 := by
  cases sign <;> decide

/-- A symbol's character is written with its one byte, as every symbol is ASCII. -/
theorem bytes_symbol (sign : Symbol) : Text.bytes (String.singleton sign.char) = [sign.byte] := by
  cases sign <;> decide

/-- A quote's text is written with its one byte. -/
theorem bytes_quote (quote : Quote) : Text.bytes quote.text = [quote.byte] := by
  cases quote <;> decide

/-- A byte outside of ASCII is no text, and U+FFFD is shown for it. All such bytes are tried,
since how decoding fails depends on the byte. -/
theorem decode_of_not_ascii : ∀ {b : UInt8}, 0x80 ≤ b → Text.decode [b] = "\uFFFD" := by
  rintro ⟨b⟩
  revert b
  decide

/-- A byte outside of ASCII that stands alone is unknown, and U+FFFD is shown for it. No symbol is
such a byte. -/
theorem singlePayload_of_not_ascii {b : UInt8} (h : 0x80 ≤ b) :
    singlePayload b = .unknown "\uFFFD" := by
  have hnone : Symbol.ofByte? b = none := by
    cases hsign : Symbol.ofByte? b with
    | none => rfl
    | some sign =>
        have hb := ascii_symbol sign
        rw [(Symbol.ofByte?_eq_some_iff b sign).mp hsign] at hb
        exact absurd h (UInt8.not_le.mpr hb)
  rw [singlePayload, hnone, decode_of_not_ascii h]

/-- The text that a token spells stands at its span. Each kind of lexeme has its own lemma for
this, and `rebuilt_of_encoded` puts them together. -/
def Rebuilt (source : Source) (config : Config) (problems : List Problem) (t : Token) : Prop :=
  ∃ text, Spells config problems t.span t.payload text ∧ source.Holds t.span text

variable {source : Source} {config : Config} {problems : List Problem} {front rest : List UInt8}

/-- A token spells what stands at its span if the bytes there are those of the text it spells.
This is the only way in which the lemmas below are closed. -/
theorem Rebuilt.of_bytes {part : List UInt8} {text : String} {payload : Payload}
    (h : source.bytes = front ++ (part ++ rest)) (hfront : Encoded front) (hrest : Encoded rest)
    (htext : Text.bytes text = part)
    (hspells : Spells config problems ⟨front.length, part.length⟩ payload text) :
    Rebuilt source config problems ⟨payload, ⟨front.length, part.length⟩⟩ := by
  subst htext
  exact ⟨text, hspells, Source.Holds.of_bytes h hfront hrest⟩

/-- A word is spelled by its letters. A keyword's are fixed, and those of an identifier are its
name. -/
theorem rebuilt_word {letters : List UInt8} {t : Token}
    (h : source.bytes = front ++ (letters ++ rest)) (hfront : Encoded front)
    (hrest : Encoded rest) (hletters : Encoded letters)
    (ht : (readAt config front.length (.word letters)).token = some t) :
    Rebuilt source config problems t := by
  obtain rfl : ⟨wordPayload letters, ⟨front.length, letters.length⟩⟩ = t := Option.some.inj ht
  refine Rebuilt.of_bytes h hfront hrest (Text.bytes_decode hletters) ?_
  rw [wordPayload]
  -- A reserved word is looked up by its spelling, so what was found spells the text.
  cases hword : Keyword.ofSpelling? (Text.decode letters) with
  | none => exact .ident _
  | some word =>
      rw [← (Keyword.ofSpelling?_eq_some_iff _ word).mp hword]
      exact .keyword word

/-- A number is spelled by its value, and a malformed one that makes a token by its text. In both
cases that is the run of bytes that was scanned. -/
theorem rebuilt_number {run : List UInt8} {t : Token}
    (h : source.bytes = front ++ (run ++ rest)) (hfront : Encoded front)
    (hrest : Encoded rest) (hrun : Encoded run)
    (ht : (readAt config front.length (.number run)).token = some t) :
    Rebuilt source config problems t := by
  unfold readAt at ht
  rw [reading] at ht
  cases hkind : numberKind? run with
  | some kind =>
      simp only [hkind, Option.some.injEq] at ht
      subst ht
      exact Rebuilt.of_bytes h hfront hrest (Text.bytes_decode hrun) (.number _ _ _)
  | none =>
      -- A malformed run is no number, but if there is a token then it keeps the run.
      cases hmode : config.malformedNumber with
      | suppress => simp [hkind, hmode] at ht
      | errorToken =>
          simp only [hkind, hmode, Option.some.injEq] at ht
          subst ht
          exact Rebuilt.of_bytes h hfront hrest (Text.bytes_decode hrun) (.unknown _)

/-- The quotes of a literal, the closing one if there is one, are texts. So the value between them
can be cut out as one. -/
theorem encoded_closer (quote : Quote) (isTerminated : Bool) :
    Encoded [quote.byte] ∧ Encoded (if isTerminated then [quote.byte] else []) := by
  have hquote : Encoded [quote.byte] := ⟨quote.text, (bytes_quote quote).symm⟩
  cases isTerminated with
  | false => exact ⟨hquote, Text.encoded_nil⟩
  | true => exact ⟨hquote, hquote⟩

/-- A literal whose span leaves out the quotes is spelled by its value. The cuts are next to the
quotes, and these are texts of the source in front of the value and behind it. -/
theorem rebuilt_content {quote : Quote} {value : List UInt8} {isTerminated : Bool} {t : Token}
    (hmode : config.quoteSpan = .content)
    (h : source.bytes = front ++ ((Lexeme.quoted quote value isTerminated).spelling ++ rest))
    (hfront : Encoded front) (hrest : Encoded rest) (hvalue : Encoded value)
    (ht : (readAt config front.length (.quoted quote value isTerminated)).token = some t) :
    Rebuilt source config problems t := by
  obtain ⟨hopener, hcloser⟩ := encoded_closer quote isTerminated
  -- The quotes stand outside of the span, on either side of it.
  have hsplit : source.bytes = (front ++ [quote.byte])
      ++ (value ++ ((if isTerminated then [quote.byte] else []) ++ rest)) := by
    rw [h, spelling]
    simp
  have hspells (span : Span) : Spells config problems span
      (.literal (.quoted quote (Text.decode value) isTerminated)) (Text.decode value) :=
    .content quote _ isTerminated hmode
  have hrebuilt := Rebuilt.of_bytes hsplit (hfront.append hopener) (hcloser.append hrest)
    (Text.bytes_decode hvalue) (hspells _)
  simp only [readAt, reading, covered, hmode, Option.some.injEq] at ht
  subst ht
  simpa using hrebuilt

/-- A literal whose span takes in the quotes is spelled by its value between them. The closing one
is there if the literal is terminated. -/
theorem rebuilt_delimited {quote : Quote} {value : List UInt8} {isTerminated : Bool} {t : Token}
    (hmode : config.quoteSpan = .delimited)
    (h : source.bytes = front ++ ((Lexeme.quoted quote value isTerminated).spelling ++ rest))
    (hfront : Encoded front) (hrest : Encoded rest) (hvalue : Encoded value)
    (ht : (readAt config front.length (.quoted quote value isTerminated)).token = some t) :
    Rebuilt source config problems t := by
  have htext : Text.bytes (quote.text ++ Text.decode value
      ++ if isTerminated then quote.text else "")
        = (Lexeme.quoted quote value isTerminated).spelling := by
    rw [Text.bytes_append, Text.bytes_append, bytes_quote, Text.bytes_decode hvalue]
    cases isTerminated with
    | false => rfl
    | true =>
        rw [if_pos rfl, bytes_quote]
        rfl
  have hspells (span : Span) : Spells config problems span
      (.literal (.quoted quote (Text.decode value) isTerminated))
      (quote.text ++ Text.decode value ++ if isTerminated then quote.text else "") :=
    .delimited quote _ isTerminated hmode
  have hrebuilt := Rebuilt.of_bytes h hfront hrest htext (hspells _)
  simp only [readAt, reading, covered, hmode, Option.some.injEq] at ht
  subst ht
  exact hrebuilt

/-- A line comment is spelled by its slashes and its content, and by a carriage return if the
content has left one out. -/
theorem rebuilt_lineComment {isDoc : Bool} {content : List UInt8} {t : Token}
    (h : source.bytes = front ++ ((Lexeme.lineComment isDoc content).spelling ++ rest))
    (hfront : Encoded front) (hrest : Encoded rest)
    (hcomment : Encoded (Lexeme.lineComment isDoc content).spelling)
    (ht : (readAt config front.length (.lineComment isDoc content)).token = some t) :
    Rebuilt source config problems t := by
  have hshown := Text.bytes_decode (encoded_withoutReturn (encoded_lineContent hcomment))
  -- What the content leaves out is nothing, or the carriage return of the line break.
  obtain ⟨tail, htail, hbytes⟩ : ∃ tail : String, (tail = "" ∨ tail = "\r") ∧
      withoutReturn content ++ Text.bytes tail = content := by
    obtain ⟨left, rfl | rfl, hcontent⟩ := exists_withoutReturn_append content
    · exact ⟨"", .inl rfl, hcontent⟩
    · exact ⟨"\r", .inr rfl, hcontent⟩
  have htext : Text.bytes ("//" ++ (if isDoc then "/" else "")
      ++ Text.decode (withoutReturn content) ++ tail)
        = (Lexeme.lineComment isDoc content).spelling := by
    rw [Text.bytes_append, Text.bytes_append, Text.bytes_append, hshown, List.append_assoc, hbytes]
    cases isDoc <;> rfl
  obtain rfl : ⟨.comment ⟨.line, isDoc, Text.decode (withoutReturn content)⟩,
      ⟨front.length, _⟩⟩ = t := Option.some.inj ht
  exact Rebuilt.of_bytes h hfront hrest htext (.lineComment isDoc _ htail)

/-- A block comment is spelled by its opener and its content, and by its closer if it is closed.
The problem of an open block comment is all that tells it from a closed one, and `hproblems` says
that the problem recorded at its span is its own. -/
theorem rebuilt_blockComment {isDoc : Bool} {content : List UInt8} {openDepth : Nat} {t : Token}
    (h : source.bytes = front ++ ((Lexeme.blockComment isDoc content openDepth).spelling ++ rest))
    (hfront : Encoded front) (hrest : Encoded rest)
    (hcomment : Encoded (Lexeme.blockComment isDoc content openDepth).spelling)
    (ht : (readAt config front.length (.blockComment isDoc content openDepth)).token = some t)
    (hproblems : ∀ cause, ⟨cause, ⟨front.length, width (.blockComment isDoc content openDepth)⟩⟩
      ∈ problems ↔ (readAt config front.length (.blockComment isDoc content openDepth)).problem
        = some ⟨cause, ⟨front.length, width (.blockComment isDoc content openDepth)⟩⟩) :
    Rebuilt source config problems t := by
  have hshown := Text.bytes_decode (encoded_blockContent hcomment)
  cases openDepth with
  | zero =>
      obtain rfl : ⟨.comment ⟨.block, isDoc, Text.decode content⟩, ⟨front.length, _⟩⟩ = t :=
        Option.some.inj ht
      have htext : Text.bytes ("/*" ++ (if isDoc then "*" else "") ++ Text.decode content ++ "*/")
          = (Lexeme.blockComment isDoc content 0).spelling := by
        rw [Text.bytes_append, Text.bytes_append, Text.bytes_append, hshown]
        cases isDoc <;> rfl
      refine Rebuilt.of_bytes h hfront hrest htext (.closedComment isDoc _ ?_)
      -- A problem recorded here would be one of this comment, which has none.
      intro depth hmem
      cases (hproblems _).mp hmem
  | succ depth =>
      obtain rfl : ⟨.comment ⟨.block, isDoc, Text.decode content⟩, ⟨front.length, _⟩⟩ = t :=
        Option.some.inj ht
      have htext : Text.bytes ("/*" ++ (if isDoc then "*" else "") ++ Text.decode content)
          = (Lexeme.blockComment isDoc content (depth + 1)).spelling := by
        rw [Text.bytes_append, Text.bytes_append, hshown]
        cases isDoc <;> simp [spelling] <;> rfl
      have hopen := (hproblems (.unterminatedComment (depth + 1))).mpr rfl
      exact Rebuilt.of_bytes h hfront hrest htext (.openComment isDoc _ hopen)

/-- A byte that stands alone is spelled by its symbol, or by its own text. It is ASCII, which `hb`
says by way of its encoding. -/
theorem rebuilt_single {b : UInt8} {t : Token} (h : source.bytes = front ++ ([b] ++ rest))
    (hfront : Encoded front) (hrest : Encoded rest) (hb : Encoded [b])
    (ht : (readAt config front.length (.single b)).token = some t) :
    Rebuilt source config problems t := by
  obtain rfl : ⟨singlePayload b, ⟨front.length, [b].length⟩⟩ = t := Option.some.inj ht
  unfold singlePayload
  cases hsign : Symbol.ofByte? b with
  | none => exact Rebuilt.of_bytes h hfront hrest (Text.bytes_decode hb) (.unknown _)
  | some sign =>
      have htext : Text.bytes (String.singleton sign.char) = [b] := by
        rw [bytes_symbol, (Symbol.ofByte?_eq_some_iff b sign).mp hsign]
      exact Rebuilt.of_bytes h hfront hrest htext (.symbol rfl)

/-- A token of a lexeme that is encoded spells what stands at its span. What is encoded is the
lexeme and what surrounds it, so that every cut falls between characters. -/
theorem rebuilt_of_encoded {lexeme : Lexeme} {t : Token}
    (h : source.bytes = front ++ (lexeme.spelling ++ rest)) (hfront : Encoded front)
    (hrest : Encoded rest) (hlexeme : Encoded lexeme.spelling)
    (ht : (lexeme.readAt config front.length).token = some t)
    (hproblems : ∀ cause, ⟨cause, ⟨front.length, lexeme.width⟩⟩ ∈ problems ↔
      (lexeme.readAt config front.length).problem = some ⟨cause, ⟨front.length, lexeme.width⟩⟩) :
    Rebuilt source config problems t := by
  cases lexeme with
  | word letters => exact rebuilt_word h hfront hrest hlexeme ht
  | number run => exact rebuilt_number h hfront hrest hlexeme ht
  | quoted quote value isTerminated =>
      have hvalue := encoded_value hlexeme
      cases hmode : config.quoteSpan with
      | content => exact rebuilt_content hmode h hfront hrest hvalue ht
      | delimited => exact rebuilt_delimited hmode h hfront hrest hvalue ht
  | lineComment isDoc content => exact rebuilt_lineComment h hfront hrest hlexeme ht
  | blockComment isDoc content openDepth =>
      exact rebuilt_blockComment h hfront hrest hlexeme ht hproblems
  | single b => exact rebuilt_single h hfront hrest hlexeme ht

/-! ### From a run to its tokens -/

/-- A problem concerns the whole of its lexeme, whatever the token covers, and also where the
lexeme makes none. -/
theorem span_eq_of_problem {lexeme : Lexeme} {offset : Nat} {problem : Problem}
    (h : (lexeme.readAt config offset).problem = some problem) :
    problem.span = ⟨offset, lexeme.width⟩ := by
  rcases problem_readAt_cases h with ⟨run, rfl, -, rfl⟩ | ⟨isDoc, content, depth, rfl, rfl⟩
  · rfl
  · rfl

/-- Among the problems of a run, those at the place of a lexeme are its own. Two lexemes of a run
do not start at one offset, so a problem found by its span is found in its place. -/
theorem mem_problems_iff {offset : Nat} {bytes : List UInt8} {p : Placed}
    (hp : p ∈ scan config.comments offset bytes)
    (hread : p.reading config ∈ readings config offset bytes) (cause : Cause) :
    ⟨cause, p.span⟩ ∈ (readings config offset bytes).filterMap (·.problem)
      ↔ (p.reading config).problem = some ⟨cause, p.span⟩ := by
  rw [List.mem_filterMap]
  constructor
  · rintro ⟨reading, hreading, hproblem⟩
    obtain ⟨q, hq, rfl⟩ := mem_readings hreading
    -- The problem of `q` concerns all of `q`, so `p` and `q` start at one offset.
    have hspan : p.span = q.span := span_eq_of_problem hproblem
    rw [eq_of_mem_scan hp hq (congrArg Span.start hspan)] at hproblem ⊢
    exact hproblem
  · intro hproblem
    exact ⟨_, hread, hproblem⟩

/-- A token of a lexeme that stands in a source spells what stands at its span, or it shows
U+FFFD for a byte outside of ASCII. -/
theorem rebuilt_or_replaced {lexeme : Lexeme} {t : Token}
    (hends : EndsBefore config.comments lexeme rest)
    (h : source.bytes = front ++ (lexeme.spelling ++ rest))
    (ht : (lexeme.readAt config front.length).token = some t)
    (hproblems : ∀ cause, ⟨cause, ⟨front.length, lexeme.width⟩⟩ ∈ problems ↔
      (lexeme.readAt config front.length).problem = some ⟨cause, ⟨front.length, lexeme.width⟩⟩) :
    Rebuilt source config problems t ∨
      ∃ b, 0x80 ≤ b ∧ t = ⟨.unknown "\uFFFD", ⟨front.length, 1⟩⟩ ∧
        source.slice front.length (front.length + 1) = [b] := by
  -- An ASCII byte in front means that the whole lexeme is cut out between characters. A byte
  -- outside of ASCII is a lexeme of its own, and a part of some character.
  rcases exists_ascii_cons hends with hascii | ⟨b, rfl, hb⟩
  · have hsource : Encoded (front ++ (lexeme.spelling ++ rest)) :=
      ⟨source.text, by rw [← h, source.bytes_eq]⟩
    obtain ⟨hfront, hlexeme, hrest⟩ := encoded_of_endsBefore hends hsource hascii
    exact .inl (rebuilt_of_encoded h hfront hrest hlexeme ht hproblems)
  · obtain rfl : ⟨singlePayload b, ⟨front.length, 1⟩⟩ = t := Option.some.inj ht
    rw [singlePayload_of_not_ascii hb]
    exact .inr ⟨b, hb, rfl, Source.slice_append h⟩

end Lexeme

/-- What a payload keeps is a part of the text that its token spells: all of it, or what its
delimiters leave. -/
theorem Spells.text_isInfix {config : Config} {problems : List Problem} {span : Span}
    {payload : Payload} {text kept : String} (h : Spells config problems span payload text)
    (hkept : payload.text? = some kept) : kept.toList <:+: text.toList := by
  cases h with
  | keyword word => cases hkept
  | symbol h => cases hkept
  | unknown text => cases hkept
  | ident name | number kind value base | content quote value isTerminated h =>
      cases hkept
      exact List.infix_rfl
  | delimited quote value isTerminated h =>
      cases hkept
      rw [String.toList_append, String.toList_append]
      exact List.infix_append _ _ _
  | lineComment isDoc content h | closedComment isDoc content h =>
      cases hkept
      rw [String.toList_append, String.toList_append]
      exact List.infix_append _ _ _
  | openComment isDoc content h =>
      cases hkept
      rw [String.toList_append]
      exact (List.suffix_append _ _).isInfix

/-- The bytes at the span of a token are those that its payload spells, but for a byte outside of
ASCII that stands alone. A name, a value or a content stands in the source as it is. The text of a
malformed number is not left out: it is the text of an unknown token, and spelled like any other. -/
theorem drains_faithful (source : Source) (config : Config) :
    ∃ tokens problems, Lexer.Drains source config tokens problems ∧
      ∀ t ∈ tokens, Faithful source config problems t ∧
        ∀ kept, t.payload.text? = some kept → kept.toList <:+: source.text.toList := by
  refine ⟨_, _, Lexer.drains_readings source config, ?_⟩
  intro t ht
  obtain ⟨reading, hreading, htoken⟩ := List.mem_filterMap.mp ht
  obtain ⟨p, hp, rfl⟩ := Lexeme.mem_readings hreading
  have hown := Lexeme.mem_problems_iff hp hreading
  obtain ⟨front, rest, hbytes, hstart, hends⟩ := Lexeme.exists_of_mem_scan hp
  rw [Nat.zero_add] at hstart
  simp only [Placed.reading, Placed.span, hstart] at htoken hown
  rcases Lexeme.rebuilt_or_replaced hends hbytes htoken hown with
    ⟨text, hspells, hholds⟩ | ⟨b, hb, rfl, hslice⟩
  · refine ⟨.spelled hspells hholds.slice_eq hholds.isValid_start hholds.isValid_stop, ?_⟩
    intro kept hkept
    obtain ⟨before, after, htext, -⟩ := hholds
    rw [htext, String.toList_append, String.toList_append]
    exact (hspells.text_isInfix hkept).trans (List.infix_append _ _ _)
  · refine ⟨.replaced hb rfl hslice rfl, ?_⟩
    intro kept hkept
    cases hkept

end Lexis
