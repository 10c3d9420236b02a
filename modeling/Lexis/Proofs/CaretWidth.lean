import Lexis.Diagnostic
import Lexis.Proofs.LineText
import Lexis.Proofs.TokenPositions
import Mathlib.Data.Nat.Digits.Defs

/-!
# `Lexis.Proofs.CaretWidth`: how far a caret can stand to the right

A diagnostic pads its last line up to the caret, and a line can be padded up to
`paddingLimit` only. So a problem can be shown if there is little enough in front of it on its
line, without the blanks at the start of the line. Nothing else in a diagnostic of a recorded
problem faults. The theorems:

* `Diagnostic.length_takeWhile_isIndent`: the blanks at the start of a line count the same in
  bytes and in characters.
* `Diagnostic.caretWidth_location`: the width of the caret's line, from the bytes of the source.
* `exists_sign_of_mem_problems`: the signs that a recorded problem can start with.
* `drains_render`: a recorded problem is shown if the width is at most `paddingLimit`, and
  faults if it is more.
* `render_wordBeforeComment`: so there are recorded problems that cannot be shown.
-/

set_option autoImplicit false

namespace Lexis

/-- A byte that is left out at the start of a shown line. -/
def Byte.isIndent (b : UInt8) : Bool := b == space || b == 0x09

/-- How many bytes of the shown line come before an offset, and one for the caret. -/
def Source.caretWidth (source : Source) (offset : Nat) : Nat :=
  ((source.lineHead offset).dropWhile Byte.isIndent).length + 1

namespace Diagnostic

/-! ### Blanks at the start of a line -/

/-- An ASCII byte is left out at the start of a line if its character is. Each is tried. -/
theorem isIndent_toChar : ∀ {b : UInt8}, b < 0x80 →
    isIndent (Char.ofUInt8 b) = Byte.isIndent b := by
  rintro ⟨b⟩
  revert b
  decide

/-- What is left out at the start of a line is ASCII. -/
theorem ascii_of_isIndent {b : UInt8} (h : Byte.isIndent b = true) : b < 0x80 := by
  simp only [Byte.isIndent, Bool.or_eq_true, beq_iff_eq] at h
  rcases h with rfl | rfl <;> decide

/-- A byte that is not blank is not left out. -/
theorem isIndent_of_isBlank {b : UInt8} (h : Byte.isBlank b = false) : Byte.isIndent b = false := by
  simp only [Byte.isBlank, Bool.or_eq_false_iff] at h
  simp [Byte.isIndent, h]

/-- A byte that is not blank ends no line. -/
theorem isLineBreak_of_isBlank {b : UInt8} (h : Byte.isBlank b = false) :
    Byte.isLineBreak b = false := by
  simp only [Byte.isBlank, Bool.or_eq_false_iff] at h
  simp [Byte.isLineBreak, h]

/-- The first byte of a character tells whether the character is a blank, as blanks are ASCII and
so are their bytes. -/
theorem isIndent_eq_of_utf8EncodeChar {c : Char} {b : UInt8} {tail : List UInt8}
    (h : String.utf8EncodeChar c = b :: tail) : isIndent c = Byte.isIndent b := by
  by_cases hascii : b < 0x80
  · -- Then the byte is all of the character.
    obtain rfl := Text.utf8EncodeChar_eq_singleton_of_ascii h hascii
    have hchar := Text.charAt?_utf8EncodeChar_append c []
    rw [h, ← Text.utf8EncodeChar_toChar hascii, Text.charAt?_utf8EncodeChar_append,
      Option.some.injEq] at hchar
    rw [← hchar, isIndent_toChar hascii]
  · have hbyte : Byte.isIndent b = false := by
      rw [Bool.eq_false_iff]
      intro hb
      exact hascii (ascii_of_isIndent hb)
    rw [hbyte, Bool.eq_false_iff]
    intro hc
    simp only [isIndent, Bool.or_eq_true, beq_iff_eq] at hc
    rcases hc with rfl | rfl
    · obtain ⟨rfl, -⟩ := List.cons.inj h
      exact hascii (by decide)
    · obtain ⟨rfl, -⟩ := List.cons.inj h
      exact hascii (by decide)

/-- The blanks at the start of a text are as many bytes as characters. So it makes no difference
here in which of them the indentation is measured. -/
theorem length_takeWhile_isIndent (text : String) :
    ((Text.bytes text).takeWhile Byte.isIndent).length
      = (text.toList.takeWhile isIndent).length := by
  rw [Text.bytes_eq_flatMap]
  induction text.toList with
  | nil => rfl
  | cons c chars ih =>
      rw [List.flatMap_cons]
      cases henc : String.utf8EncodeChar c with
      | nil => exact absurd henc String.utf8EncodeChar_ne_nil
      | cons b tail =>
          have hindent := isIndent_eq_of_utf8EncodeChar henc
          cases hb : Byte.isIndent b with
          | false => simp [hb, hindent]
          | true =>
              obtain rfl := Text.utf8EncodeChar_eq_singleton_of_ascii henc (ascii_of_isIndent hb)
              simp [hb, hindent, ih]

/-! ### The line of the caret -/

/-- The width that the line of the caret is padded to. It is the column less what is left out at
the start of the line, and is computed as the diagnostic does it. -/
def caretWidth (s : Session) (location : Location) : Nat :=
  location.column - 1
    - (((s.lineText? location.line).getD "").toList.takeWhile isIndent).length + 1

/-- What is left out in front is the difference of the two lengths. The width of the indentation
is computed so, from the line with it and without. -/
theorem length_sub_length_dropWhile {α : Type} (p : α → Bool) (entries : List α) :
    entries.length - (entries.dropWhile p).length = (entries.takeWhile p).length := by
  have hlength := congrArg List.length (List.takeWhile_append_dropWhile (p := p) (l := entries))
  rw [List.length_append] at hlength
  omega

/-- What is taken from the front does not reach past a value that stops it, so that what stands
behind the value does not matter. -/
theorem takeWhile_append_cons {α : Type} {p : α → Bool} {a : α} (h : p a = false)
    (front rest : List α) : (front ++ a :: rest).takeWhile p = front.takeWhile p := by
  induction front with
  | nil => simp [h]
  | cons c front ih => rw [List.cons_append, List.takeWhile_cons, List.takeWhile_cons, ih]

/-- The number of a line takes little room, so that the margin on the left is never the part that
is too wide. -/
theorem padding_le_paddingLimit {line : Nat} (h : line ≤ addressLimit) :
    (toString line).length + 2 ≤ paddingLimit := by
  have hlength : (toString line).length ≤ 20 := by
    refine Nat.repr_length line 20 (by decide) (Nat.lt_of_le_of_lt h ?_)
    decide
  have hlimit : 20 + 2 ≤ paddingLimit := by decide
  omega

variable {s : Session} {directory : List String} {location : Location}

/-- The lines of a diagnostic from the place on, with the caret at the end of the last. -/
def rows (s : Session) (directory : List String) (location : Location) (caret : String) :
    String :=
  let number := toString location.line
  let bar := String.ofList (List.replicate (number.length + 1) ' ') ++ "|"
  let shown := ((s.lineText? location.line).getD "").toList.dropWhile isIndent
  "-> " ++ place s directory ++ ":" ++ number ++ ":" ++ toString location.column ++ "\n"
    ++ bar ++ "\n"
    ++ number ++ " | " ++ Text.trimEnd (String.ofList shown) ++ "\n"
    ++ bar ++ " " ++ caret ++ "\n"

/-- All that can fault in these lines is the caret. The bar is padded to the width of a line
number, which is far below the limit. -/
theorem body_eq (hline : location.line ≤ addressLimit) :
    body s directory location
      = (padStart '-' (caretWidth s location) "^").map (rows s directory location) := by
  have hindent := length_sub_length_dropWhile isIndent ((s.lineText? location.line).getD "").toList
  rw [caretWidth, ← hindent, body]
  show (padStart ' ' ((toString location.line).length + 2) "|" >>= _) = _
  rw [padStart_eq_ok (padding_le_paddingLimit hline)]
  show (padStart _ _ _ >>= _) = _
  generalize padStart '-' _ "^" = caret
  cases caret with
  | error fault => rfl
  | ok caret => rfl

/-! ### Problems that a lexer records -/

variable {source : Source} {useColor : Bool} {front rest : List UInt8} {b : UInt8}

/-- The column of a byte that is not blank counts what stands in front of it on its line. Counting
starts at one, and by bytes. -/
theorem column_location (hbytes : source.bytes = front ++ b :: rest)
    (hblank : Byte.isBlank b = false) {span : Span} (hstart : span.start = front.length) :
    (span.location source none).column = (source.lineHead front.length).length + 1 := by
  have hfeed : b ≠ Byte.lineFeed := by
    rintro rfl
    cases hblank
  have hlength := LineTable.startAt_index_add_length hbytes hfeed
  show span.start - (LineTable.ofSource source).startAt _ + 1 = _
  rw [hstart]
  omega

/-- The width of the caret's line below an ASCII byte that is not blank. The diagnostic computes
it from the column and the text of the line, and it comes to the bytes in front on that line,
without the indentation, and one for the caret. -/
theorem caretWidth_location (hbytes : source.bytes = front ++ b :: rest) (hascii : b < 0x80)
    (hblank : Byte.isBlank b = false) {span : Span} (hstart : span.start = front.length) :
    caretWidth { Session.ofSource source with useColor := useColor } (span.location source none)
      = source.caretWidth front.length := by
  obtain ⟨head, behind, hhead, htext⟩ :=
    LineTable.exists_lineText_append hbytes hascii (isLineBreak_of_isBlank hblank)
  have hline : Session.lineText? { Session.ofSource source with useColor := useColor }
      (span.location source none).line
      = some (head ++ String.singleton (Char.ofUInt8 b) ++ behind) := by
    rw [← htext, ← hstart]
    rfl
  have hcolumn := column_location hbytes hblank hstart
  -- The byte is no blank, so the blanks at the start of the line all stand in front of it.
  have hchar : isIndent (Char.ofUInt8 b) = false :=
    (isIndent_toChar hascii).trans (isIndent_of_isBlank hblank)
  have hindent : ((head ++ String.singleton (Char.ofUInt8 b) ++ behind).toList.takeWhile
      isIndent).length = ((source.lineHead front.length).takeWhile Byte.isIndent).length := by
    rw [← hhead, length_takeWhile_isIndent, String.toList_append, String.toList_append,
      String.toList_singleton, List.append_assoc, List.singleton_append,
      takeWhile_append_cons hchar]
  have hsplit := congrArg List.length (List.takeWhile_append_dropWhile (p := Byte.isIndent)
    (l := source.lineHead front.length))
  rw [List.length_append] at hsplit
  rw [caretWidth, hline, Option.getD_some, hindent, hcolumn, Source.caretWidth]
  omega

/-- All that can fault in the diagnostic of a problem that starts there is the caret: the span
resolves, since it lies in the source, and the rest of the lines is written for any location. -/
theorem render_eq (hbytes : source.bytes = front ++ b :: rest) (hascii : b < 0x80)
    (hblank : Byte.isBlank b = false) {problem : Problem}
    (hstart : problem.span.start = front.length) (hstop : problem.span.stop ≤ source.size)
    (directory : List String) :
    render problem { Session.ofSource source with useColor := useColor } directory
      = (padStart '-' (source.caretWidth front.length) "^").map fun caret =>
          header useColor problem.cause
            ++ rows { Session.ofSource source with useColor := useColor } directory
              (problem.span.location source none) caret := by
  have hle : problem.span.start ≤ source.size := Nat.le_trans (Nat.le_add_right _ _) hstop
  have hlimit : problem.span.stop + 0 < addressLimit :=
    Source.add_lt_addressLimit hstop (Nat.zero_le source.size)
  have hline : (problem.span.location source none).line ≤ addressLimit := by
    have hcount := (problem.span.locates_location source none).line_le
    have hsize := LineTable.count_ofSource_le source
    have hbound := Source.add_lt_addressLimit (Nat.le_refl source.size) (Nat.zero_le source.size)
    omega
  rw [render]
  show (problem.span.resolve source (LineTable.ofSource source) none >>= _) = _
  rw [Span.resolve_of_le hle hlimit]
  show (body _ _ (problem.span.location source none) >>= _) = _
  rw [body_eq hline, caretWidth_location hbytes hascii hblank hstart]
  generalize padStart '-' _ "^" = caret
  cases caret with
  | error fault => rfl
  | ok caret => rfl

end Diagnostic

/-- A recorded problem is that of a lexeme, which starts where it does. The lexeme is a number or
a comment, and so its first byte is known. -/
theorem exists_lexeme_of_mem_problems {source : Source} {config : Config} {problem : Problem}
    (h : problem ∈ (Lexeme.readings config 0 source.bytes).filterMap (·.problem)) :
    ∃ front lexeme rest, source.bytes = front ++ (lexeme.spelling ++ rest) ∧
      Lexeme.EndsBefore config.comments lexeme rest ∧
      (lexeme.readAt config front.length).problem = some problem := by
  obtain ⟨reading, hreading, hproblem⟩ := List.mem_filterMap.mp h
  obtain ⟨front, lexeme, rest, hbytes, hends, rfl⟩ := Lexeme.exists_of_mem_readings hreading
  exact ⟨front, lexeme, rest, hbytes, hends, hproblem⟩

/-- A recorded problem starts with a digit or with a slash, since it is a malformed number or an
open block comment. -/
theorem exists_sign_of_mem_problems {source : Source} {config : Config} {problem : Problem}
    (h : problem ∈ (Lexeme.readings config 0 source.bytes).filterMap (·.problem)) :
    ∃ front b rest, source.bytes = front ++ b :: rest ∧
      (Byte.isDigit b = true ∨ b = Byte.slash) ∧ problem.span.start = front.length := by
  obtain ⟨front, lexeme, rest, hbytes, hends, hproblem⟩ := exists_lexeme_of_mem_problems h
  rw [Lexeme.span_eq_of_problem hproblem]
  rcases Lexeme.problem_readAt_cases hproblem with ⟨run, rfl, -⟩ | ⟨isDoc, content, depth, rfl, -⟩
  · cases hends with
    | number hb => exact ⟨front, _, _, hbytes, .inl hb, rfl⟩
  · exact ⟨front, Byte.slash, _, hbytes, .inr rfl, rfl⟩

/-- A digit and a slash are characters of their own, which are neither blanks nor white space. So
they stay when a line is trimmed. -/
theorem plain_of_sign {b : UInt8} (h : Byte.isDigit b = true ∨ b = Byte.slash) :
    b < 0x80 ∧ Byte.isBlank b = false ∧ Text.isWhite (Char.ofUInt8 b) = false := by
  have hdigit : ∀ digit : UInt8, Byte.isDigit digit = true →
      Text.isWhite (Char.ofUInt8 digit) = false := by
    rintro ⟨digit⟩
    revert digit
    decide
  rcases h with h | rfl
  · exact ⟨ascii_of_isDigit h, Lexeme.isBlank_of_isDigit h, hdigit b h⟩
  · decide

/-- A recorded problem starts with an ASCII byte that is not blank, which is all that the width of
the caret's line depends on. -/
theorem exists_ascii_of_mem_problems {source : Source} {config : Config} {problem : Problem}
    (h : problem ∈ (Lexeme.readings config 0 source.bytes).filterMap (·.problem)) :
    ∃ front b rest, source.bytes = front ++ b :: rest ∧ b < 0x80 ∧ Byte.isBlank b = false ∧
      problem.span.start = front.length := by
  obtain ⟨front, b, rest, hbytes, hsign, hstart⟩ := exists_sign_of_mem_problems h
  obtain ⟨hascii, hblank, -⟩ := plain_of_sign hsign
  exact ⟨front, b, rest, hbytes, hascii, hblank, hstart⟩

/-- A problem that a lexer records can be shown, by a session of the source and to a reader in any
directory, if the caret's line is not too wide for it. Otherwise showing it faults, and the fault
names that width. Both are the same with and without color. -/
theorem drains_render (source : Source) (config : Config) :
    ∃ tokens problems, Lexer.Drains source config tokens problems ∧
      ∀ problem ∈ problems, ∀ useColor directory,
        (source.caretWidth problem.span.start ≤ paddingLimit → ∃ text,
          Diagnostic.render problem { Session.ofSource source with useColor := useColor } directory
            = .ok text) ∧
        (paddingLimit < source.caretWidth problem.span.start →
          Diagnostic.render problem { Session.ofSource source with useColor := useColor } directory
            = .error (.paddingTooWide (source.caretWidth problem.span.start))) := by
  refine ⟨_, _, Lexer.drains_readings source config, ?_⟩
  intro problem hproblem useColor directory
  obtain ⟨front, b, rest, hbytes, hascii, hblank, hstart⟩ := exists_ascii_of_mem_problems hproblem
  rw [Diagnostic.render_eq hbytes hascii hblank hstart (stop_le_of_mem_problems hproblem), hstart]
  constructor
  · intro h
    rw [Diagnostic.padStart_eq_ok h]
    exact ⟨_, rfl⟩
  · intro h
    rw [Diagnostic.padStart_eq_error h]
    rfl

/-! ### A line that is too long -/

/-- A word of as many letters with an open block comment behind it. -/
def wordBeforeComment (letters : Nat) (h : letters + 2 < Source.sizeLimit) : Source where
  text := String.ofList (List.replicate letters 'a' ++ ['/', '*'])
  bytes := List.replicate letters 0x61 ++ [Byte.slash, Byte.star]
  bytes_eq := by
    have hletter : String.utf8EncodeChar 'a' = [0x61] := by decide
    rw [Text.bytes_eq_flatMap, String.toList_ofList, List.flatMap_append, List.flatMap_replicate,
      hletter, List.flatten_replicate_singleton]
    rfl
  length_lt := by
    rw [List.length_append, List.length_replicate]
    exact h

/-- The comment is recorded as a problem behind the word, for a word of any length that a source
has room for. -/
theorem drains_wordBeforeComment {letters : Nat} (h : letters + 1 + 2 < Source.sizeLimit) :
    ∃ tokens, Lexer.Drains (wordBeforeComment (letters + 1) h) {} tokens
      [⟨.unterminatedComment 1, ⟨letters + 1, 2⟩⟩] := by
  have hword : Lexeme.EndsBefore true (.word (0x61 :: List.replicate letters 0x61))
      [Byte.slash, Byte.star] := by
    refine .word rfl ⟨?_, ?_⟩
    · intro b hb
      obtain rfl := List.eq_of_mem_replicate hb
      rfl
    · intro b hb
      obtain rfl : Byte.slash = b := by simpa using hb
      rfl
  have hcomment : Lexeme.EndsBefore true (.blockComment false [] 1) [] :=
    .openComment rfl rfl .done
  have hscan : Lexeme.scan true 0 (wordBeforeComment (letters + 1) h).bytes
      = [⟨0, .word (0x61 :: List.replicate letters 0x61)⟩,
        ⟨letters + 1, .blockComment false [] 1⟩] := by
    have hbytes : (wordBeforeComment (letters + 1) h).bytes
        = (Lexeme.word (0x61 :: List.replicate letters 0x61)).spelling
          ++ [Byte.slash, Byte.star] := rfl
    have hwidth : (Lexeme.word (0x61 :: List.replicate letters 0x61)).width = letters + 1 := by
      rw [Lexeme.width, Lexeme.spelling, List.length_cons, List.length_replicate]
    rw [hbytes, Lexeme.scan_spelling_append hword, hwidth, Nat.zero_add]
    exact congrArg (_ :: ·) ((Lexeme.scan_spelling_append hcomment).trans
      (congrArg (_ :: ·) Lexeme.scan_nil))
  have hdrains := Lexer.drains_readings (wordBeforeComment (letters + 1) h) {}
  rw [Lexeme.readings, hscan] at hdrains
  exact ⟨_, hdrains⟩

/-- The word is no part of the indentation, so that the caret's line is as wide as the word and
one more. -/
theorem caretWidth_wordBeforeComment {letters : Nat} (h : letters + 2 < Source.sizeLimit) :
    (wordBeforeComment letters h).caretWidth letters = letters + 1 := by
  have htake : (wordBeforeComment letters h).bytes.take letters
      = List.replicate letters 0x61 := by
    show (List.replicate letters 0x61 ++ _).take letters = _
    rw [List.take_left' List.length_replicate]
  have hhead : (wordBeforeComment letters h).lineHead letters = List.replicate letters 0x61 := by
    rw [Source.lineHead, htake, List.rtakeWhile_eq_self_iff]
    intro b hb
    obtain rfl := List.eq_of_mem_replicate hb
    rfl
  have hindent : Byte.isIndent 0x61 = false := rfl
  rw [Source.caretWidth, hhead, List.dropWhile_replicate, hindent, if_neg Bool.false_ne_true,
    List.length_replicate]

/-- A problem that is recorded on a long line and that cannot be shown: the width of the caret's
line does not fit into 16 bits, and formatting it faults. -/
theorem render_wordBeforeComment :
    ∃ tokens, Lexer.Drains (wordBeforeComment 65535 (by decide)) {} tokens
        [⟨.unterminatedComment 1, ⟨65535, 2⟩⟩] ∧
      ∀ useColor directory, Diagnostic.render ⟨.unterminatedComment 1, ⟨65535, 2⟩⟩
          { Session.ofSource (wordBeforeComment 65535 (by decide)) with useColor := useColor }
          directory
        = .error (.paddingTooWide 65536) := by
  have hsize : 65535 + 2 < Source.sizeLimit := by decide
  have hbytes : (wordBeforeComment 65535 hsize).bytes
      = List.replicate 65535 0x61 ++ Byte.slash :: [Byte.star] := rfl
  have hlength : (List.replicate 65535 (0x61 : UInt8)).length = 65535 := List.length_replicate
  have hstart : (Problem.mk (.unterminatedComment 1) ⟨65535, 2⟩).span.start
      = (List.replicate 65535 (0x61 : UInt8)).length := hlength.symm
  have hstop : (Problem.mk (.unterminatedComment 1) ⟨65535, 2⟩).span.stop
      ≤ (wordBeforeComment 65535 hsize).size := by
    rw [← Source.length_bytes, hbytes, List.length_append, hlength]
    exact Nat.le_refl (65535 + 2)
  obtain ⟨tokens, hdrains⟩ := drains_wordBeforeComment hsize
  refine ⟨tokens, hdrains, ?_⟩
  intro useColor directory
  rw [Diagnostic.render_eq hbytes (by decide) (by decide) hstart hstop, hlength,
    caretWidth_wordBeforeComment, Diagnostic.padStart_eq_error (by decide)]
  rfl

end Lexis
