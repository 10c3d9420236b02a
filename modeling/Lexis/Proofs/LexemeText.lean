import Lexis.Proofs.LexicalGrammar
import Lexis.Proofs.Utf8
import Lexis.Reading

/-!
# `Lexis.Proofs.LexemeText`: lexemes of encoded bytes are texts

Scanning looks at bytes, and lexemes are cut out of a source at any byte. Each cut has an
ASCII byte on one side of it, so that it falls between characters. The one exception is a
single byte outside of ASCII, which is a part of a character. The theorems:

* `Lexeme.encoded_of_endsBefore`: a lexeme that does not begin outside of ASCII is a text,
  and so is what stands before and behind it.
* `Lexeme.encoded_value`, `Lexeme.encoded_lineContent`, `Lexeme.encoded_blockContent`: so is
  what stands between its delimiters.
-/

set_option autoImplicit false

namespace Lexis

open Text (Encoded)

/-! ### Classes of ASCII bytes -/

/-- Words begin with ASCII bytes. -/
theorem ascii_of_startsWord : ∀ {b : UInt8}, Byte.startsWord b = true → b < 0x80 := by
  rintro ⟨b⟩
  revert b
  decide

/-- Words go on with ASCII bytes, so that no part of another character gets into one. -/
theorem ascii_of_continuesWord : ∀ {b : UInt8}, Byte.continuesWord b = true → b < 0x80 := by
  rintro ⟨b⟩
  revert b
  decide

/-- Digits are ASCII bytes, those of other scripts being none. -/
theorem ascii_of_isDigit : ∀ {b : UInt8}, Byte.isDigit b = true → b < 0x80 := by
  rintro ⟨b⟩
  revert b
  decide

/-- Numbers go on with ASCII bytes: digits and dots. -/
theorem ascii_of_continuesNumber : ∀ {b : UInt8}, Byte.continuesNumber b = true → b < 0x80 := by
  rintro ⟨b⟩
  revert b
  decide

/-- Quotes are ASCII bytes. -/
theorem ascii_quote (quote : Quote) : quote.byte < 0x80 := by
  cases quote <;> decide

/-! ### Whole lexemes -/

namespace Lexeme

/-- A word is a text, whatever stands behind it: all of its bytes are ASCII. -/
theorem encoded_word {b : UInt8} {run rest : List UInt8} (hb : Byte.startsWord b = true)
    (hrun : LongestRun Byte.continuesWord run rest) : Encoded (b :: run) := by
  refine Text.encoded_of_ascii ?_
  intro c hc
  rcases List.mem_cons.mp hc with rfl | hc
  · exact ascii_of_startsWord hb
  · exact ascii_of_continuesWord (hrun.within c hc)

/-- A number is a text, whatever stands behind it: all of its bytes are ASCII. -/
theorem encoded_number {b : UInt8} {run rest : List UInt8} (hb : Byte.isDigit b = true)
    (hrun : LongestRun Byte.continuesNumber run rest) : Encoded (b :: run) := by
  refine Text.encoded_of_ascii ?_
  intro c hc
  rcases List.mem_cons.mp hc with rfl | hc
  · exact ascii_of_isDigit hb
  · exact ascii_of_continuesNumber (hrun.within c hc)

/-- A lexeme begins with an ASCII byte, or it is a single byte outside of ASCII. Such a byte is a
part of a character, and it is the only lexeme that is no text. -/
theorem exists_ascii_cons {comments : Bool} {lexeme : Lexeme} {rest : List UInt8}
    (h : EndsBefore comments lexeme rest) :
    (∃ b tail, lexeme.spelling = b :: tail ∧ b < 0x80) ∨ ∃ b, lexeme = .single b ∧ 0x80 ≤ b := by
  cases h with
  | word hb _ => exact .inl ⟨_, _, rfl, ascii_of_startsWord hb⟩
  | number hb _ => exact .inl ⟨_, _, rfl, ascii_of_isDigit hb⟩
  | @terminated quote => exact .inl ⟨_, _, rfl, ascii_quote quote⟩
  | @unterminated quote => exact .inl ⟨_, _, rfl, ascii_quote quote⟩
  | lineComment => exact .inl ⟨_, _, rfl, by decide⟩
  | closedComment => exact .inl ⟨_, _, rfl, by decide⟩
  | openComment => exact .inl ⟨_, _, rfl, by decide⟩
  | @single b _ _ =>
      by_cases hb : b < 0x80
      · exact .inl ⟨b, [], rfl, hb⟩
      · exact .inr ⟨b, rfl, UInt8.not_lt.mp hb⟩

/-- What ends before a line feed or the end is cut there between characters, since a line feed is
an ASCII byte and never a part of another character. -/
theorem encoded_of_lineEnd {text rest : List UInt8} (h : Encoded (text ++ rest))
    (hrest : ∀ b ∈ rest.head?, b = Byte.lineFeed) : Encoded text := by
  refine (h.split ?_).1
  intro b hb
  rw [hrest b hb]
  exact Text.isUTF8FirstByte_of_ascii (by decide)

/-- What a longest run of bytes other than line feeds ends before: a line feed, if anything. -/
theorem eq_lineFeed_of_longestRun {content rest : List UInt8}
    (h : LongestRun (· != Byte.lineFeed) content rest) : ∀ b ∈ rest.head?, b = Byte.lineFeed := by
  intro b hb
  simpa using h.beyond b hb

/-- What a quoted literal without a closing quote ends before: a line feed, if anything. Its value
would go on over any other byte but the quote. -/
theorem eq_lineFeed_of_unterminated {quote : Quote} {value rest : List UInt8}
    (h : LongestRun (staysQuoted quote) value rest) (hopen : rest.head? ≠ some quote.byte) :
    ∀ b ∈ rest.head?, b = Byte.lineFeed := by
  intro b hb
  have hstop := h.beyond b hb
  have hne : b ≠ quote.byte := by
    rintro rfl
    exact hopen hb
  simpa [staysQuoted, hne] using hstop

/-- Within encoded bytes, a lexeme that begins with an ASCII byte is encoded. Each case finds the
ASCII byte at the other end: the last byte of a run, the closing quote, the slash of a closer, or
the line feed behind the lexeme. -/
theorem encoded_spelling {comments : Bool} {lexeme : Lexeme} {rest : List UInt8}
    (hends : EndsBefore comments lexeme rest) (h : Encoded (lexeme.spelling ++ rest))
    (hascii : ∃ b tail, lexeme.spelling = b :: tail ∧ b < 0x80) :
    Encoded lexeme.spelling := by
  cases hends with
  | word hb hrun => exact encoded_word hb hrun
  | number hb hrun => exact encoded_number hb hrun
  | @terminated quote value _ _ =>
      -- The closing quote is an ASCII byte, and what stands before it is encoded.
      have hquote : Encoded (quote.byte :: value ++ quote.byte :: rest) := by
        simpa [spelling] using h
      have hvalue := (hquote.split_ascii (ascii_quote quote)).1
      exact hvalue.append (Text.encoded_of_ascii (by simpa using ascii_quote quote))
  | unterminated hrun hopen =>
      exact encoded_of_lineEnd h (eq_lineFeed_of_unterminated hrun hopen)
  | lineComment _ _ hrun => exact encoded_of_lineEnd h (eq_lineFeed_of_longestRun hrun)
  | @closedComment isDoc content _ _ _ _ =>
      -- So is the slash of the closer.
      have hslash : Encoded (Byte.slash :: Byte.star :: (docStar isDoc ++ content ++ [Byte.star])
          ++ Byte.slash :: rest) := by
        simpa [spelling, docStar] using h
      have hfront := (hslash.split_ascii (by decide)).1
      have hend : Encoded [Byte.slash] := ⟨"/", by decide⟩
      have hall := hfront.append hend
      simpa [spelling, docStar] using hall
  | openComment => simpa using h
  | @single b _ _ =>
      obtain ⟨c, tail, hc, hlt⟩ := hascii
      obtain ⟨rfl, rfl⟩ : b = c ∧ [] = tail := by simpa [spelling] using hc
      exact Text.encoded_of_ascii (by simpa [spelling] using hlt)

/-- Within encoded bytes, a lexeme that begins with an ASCII byte is cut out between characters:
what stands in front of it is encoded, and so is the lexeme, and so is what stands behind it. -/
theorem encoded_of_endsBefore {comments : Bool} {lexeme : Lexeme} {front rest : List UInt8}
    (hends : EndsBefore comments lexeme rest) (h : Encoded (front ++ (lexeme.spelling ++ rest)))
    (hascii : ∃ b tail, lexeme.spelling = b :: tail ∧ b < 0x80) :
    Encoded front ∧ Encoded lexeme.spelling ∧ Encoded rest := by
  obtain ⟨b, tail, hspelling, hb⟩ := hascii
  -- The cut in front of the lexeme is in front of its first byte, which is ASCII.
  have hfirst : ∀ c ∈ (lexeme.spelling ++ rest).head?, c.IsUTF8FirstByte := by
    intro c hc
    obtain rfl : b = c := by simpa [hspelling] using hc
    exact Text.isUTF8FirstByte_of_ascii hb
  obtain ⟨hfront, hbehind⟩ := h.split hfirst
  have hwhole := encoded_spelling hends hbehind ⟨b, tail, hspelling, hb⟩
  exact ⟨hfront, hwhole, hwhole.of_append hbehind⟩

/-- A word is reserved when its bytes are those of a reserved word. The lexer compares texts, and
nothing is lost by comparing bytes, since the letters are encoded. -/
theorem ofSpelling?_decode_eq_some_iff {letters : List UInt8} (h : Text.Encoded letters)
    (word : Keyword) :
    Keyword.ofSpelling? (Text.decode letters) = some word
      ↔ letters = Text.bytes word.spelling := by
  rw [Keyword.ofSpelling?_eq_some_iff]
  constructor
  · intro hword
    rw [hword, Text.bytes_decode h]
  · rintro rfl
    rw [Text.decode_bytes]

/-! ### Between the delimiters -/

/-- The value of a quoted literal is a text, as its quotes are ASCII bytes and the whole is a
text. -/
theorem encoded_value {quote : Quote} {value : List UInt8} {isTerminated : Bool}
    (h : Encoded (Lexeme.quoted quote value isTerminated).spelling) : Encoded value := by
  have hquote : Encoded [quote.byte] := Text.encoded_of_ascii (by simpa using ascii_quote quote)
  have hbehind : Encoded (value ++ if isTerminated then [quote.byte] else []) :=
    hquote.of_append h
  cases isTerminated with
  | false => simpa using hbehind
  | true => exact (hbehind.split_ascii (ascii_quote quote)).1

/-- The content of a line comment is a text: what stands in front of it, the slashes, is one. -/
theorem encoded_lineContent {isDoc : Bool} {content : List UInt8}
    (h : Encoded (Lexeme.lineComment isDoc content).spelling) : Encoded content := by
  have hopener : Encoded (Byte.slash :: Byte.slash :: docSlash isDoc) := by
    cases isDoc with
    | false => exact ⟨"//", by decide⟩
    | true => exact ⟨"///", by decide⟩
  exact hopener.of_append h

/-- The content of a block comment is a text, with the closer behind it or with the end of the
source. -/
theorem encoded_blockContent {isDoc : Bool} {content : List UInt8} {depth : Nat}
    (h : Encoded (Lexeme.blockComment isDoc content depth).spelling) : Encoded content := by
  have hopener : Encoded (Byte.slash :: Byte.star :: docStar isDoc) := by
    cases isDoc with
    | false => exact ⟨"/*", by decide⟩
    | true => exact ⟨"/**", by decide⟩
  have hbehind : Encoded (content ++ if depth = 0 then [Byte.star, Byte.slash] else []) := by
    refine hopener.of_append ?_
    rw [← List.append_assoc]
    exact h
  split at hbehind
  · exact (hbehind.split_ascii (by decide)).1
  · simpa using hbehind

/-- What is left out of the content of a line comment is at most a carriage return, and it stood
at the end. -/
theorem exists_withoutReturn_append (content : List UInt8) :
    ∃ tail, (tail = [] ∨ tail = [Byte.carriageReturn]) ∧
      withoutReturn content ++ tail = content := by
  unfold withoutReturn
  split
  · -- The carriage return is the last byte, and what is left is the rest.
    next hreturn =>
      obtain ⟨front, rfl⟩ := List.getLast?_eq_some_iff.mp (beq_iff_eq.mp hreturn)
      exact ⟨[Byte.carriageReturn], .inr rfl, by simp⟩
  · exact ⟨[], .inl rfl, List.append_nil content⟩

/-- A content without the carriage return at its end is a text too, since a carriage return is an
ASCII byte. -/
theorem encoded_withoutReturn {content : List UInt8} (h : Encoded content) :
    Encoded (withoutReturn content) := by
  obtain ⟨tail, htail, hsplit⟩ := exists_withoutReturn_append content
  rw [← hsplit] at h
  rcases htail with rfl | rfl
  · simpa using h
  · exact (h.split_ascii (by decide)).1

end Lexeme

end Lexis
