import Lexis.Proofs.CaretWidth
import Lexis.Proofs.Lines

/-!
# `Lexis.Proofs.DiagnosticLines`: how the lines of a diagnostic fit together

A diagnostic of a recorded problem has five lines, and the last three are set below each other: a
bar, the line of the source, and the caret. What is left out of the source's line at its start
moves the caret to the left, and what is left out at its end stands behind the problem. This file
takes a diagnostic apart (`Diagnostic.Sheet`) and says how its parts go with the source
(`Diagnostic.Sheet.Describes`). The dashes in front of the caret are counted in bytes, and what
stands above them is printed in characters. The theorems:

* `Diagnostic.exists_shownOf_append`: what is left out of a line.
* `Diagnostic.shownOf_append`: what is left out stands on neither side of a sign that is not white.
* `Diagnostic.exists_shownAs`: the line of a recorded problem is shown with the problem on it.
* `Diagnostic.describes_sheetOf`, `Diagnostic.render_eq_sheetOf`: the sheet of a recorded problem.
* `drains_diagnostic`: the parts of a diagnostic agree in bytes.
* `drains_caret`: the caret stands below the start of the problem if and only if what is shown in
  front of it is ASCII.
* `render_numberBehindAccent`: so it may stand beside it.
-/

set_option autoImplicit false

namespace Lexis

open Text (Encoded)

/-! ### Texts and their characters -/

namespace Text

/-- A text is what its front is and what comes behind the front. -/
theorem ofList_takeWhile_append (p : Char → Bool) (text : String) :
    String.ofList (text.toList.takeWhile p) ++ String.ofList (text.toList.dropWhile p)
      = text := by
  rw [← String.ofList_append, List.takeWhile_append_dropWhile, String.ofList_toList]

/-- What may be dropped at the end of a text is all that is dropped, so that the text is what is
left and then that. -/
theorem exists_dropEnd_append (drop : Char → Bool) (text : String) :
    ∃ dropped, text = dropEnd drop text ++ dropped ∧ ∀ c ∈ dropped.toList, drop c = true := by
  refine ⟨String.ofList (text.toList.reverse.takeWhile drop).reverse, ?_, ?_⟩
  · rw [String.ext_iff]
    simp [dropEnd, ← List.reverse_append]
  · intro c hc
    simp only [String.toList_ofList, List.mem_reverse] at hc
    exact List.mem_takeWhile_imp hc

/-- What may be dropped is not left at the end. Together with `exists_dropEnd_append` this says
all there is to say of dropping. -/
theorem getLast?_dropEnd (drop : Char → Bool) (text : String) :
    ∀ c ∈ (dropEnd drop text).toList.getLast?, drop c = false := by
  intro c hc
  have hstop := List.head?_dropWhile_not drop text.toList.reverse
  simp only [dropEnd, String.toList_ofList, List.getLast?_reverse, Option.mem_def] at hc
  simpa [hc] using hstop

/-- A text takes a byte for each character, and more if one is not ASCII. This is all that the
dashes of a diagnostic and the characters above them can differ by. -/
theorem utf8ByteSize_eq_length_iff (text : String) :
    text.length ≤ text.utf8ByteSize ∧
      (text.utf8ByteSize = text.length ↔ ∀ c ∈ text.toList, c.toNat < 0x80) := by
  have hsize : text.utf8ByteSize = (text.toList.map Char.utf8Size).sum := by
    rw [← length_bytes, bytes_eq_flatMap]
    simp [List.length_flatMap, String.length_utf8EncodeChar]
  rw [hsize, ← String.length_toList]
  induction text.toList with
  | nil => simp
  | cons c chars ih =>
      obtain ⟨hle, hiff⟩ := ih
      have hpos := c.utf8Size_pos
      have hascii : c.utf8Size = 1 ↔ c.toNat < 0x80 := by
        rw [Char.utf8Size_eq_one_iff, UInt32.le_iff_toNat_le]
        show c.toNat ≤ 127 ↔ c.toNat < 128
        omega
      simp only [List.map_cons, List.sum_cons, List.length_cons, List.forall_mem_cons, ← hascii,
        ← hiff]
      omega

/-- Numbers are written without line feeds. -/
theorem lineFeed_not_mem_toDigits (n : Nat) : '\n' ∉ Nat.toDigits 10 n := by
  intro hmem
  cases Nat.isDigit_of_mem_toDigits (by decide) (by decide) hmem

end Text

/-- A part of a text that stands in a source stands there too, as many bytes further on as there
are in front of it. -/
theorem Source.Holds.of_append {source : Source} {span : Span} {front text behind : String}
    (h : source.Holds span (front ++ text ++ behind)) :
    source.Holds ⟨span.start + front.utf8ByteSize, text.utf8ByteSize⟩ text := by
  obtain ⟨before, after, htext, rfl⟩ := h
  refine ⟨before ++ front, behind ++ after, ?_, ?_⟩
  · rw [htext]
    simp only [String.append_assoc]
  · simp [String.utf8ByteSize_append]

/-! ### The line of a problem -/

namespace LineTable

/-- No text of a line holds a line feed, as a line ends with one at the latest. -/
theorem lineFeed_not_mem_lineText {source : Source} {number : Nat} {text : String}
    (h : (ofSource source).lineText? source number = some text) : '\n' ∉ text.toList := by
  obtain ⟨lines, hlined⟩ := exists_lined source.encoded_bytes
  cases number with
  | zero => cases h
  | succ index =>
      rw [hlined.lineText?_eq, Option.map_eq_some_iff] at h
      obtain ⟨line, hline, rfl⟩ := h
      intro hmem
      cases Text.isLineBreak_of_bytes
        (hlined.isLineBreak_eq_false line (List.mem_of_getElem? hline)) '\n' hmem

end LineTable

namespace Diagnostic

/-- What a diagnostic shows of a line. -/
def shownOf (line : String) : String :=
  Text.trimEnd (String.ofList (line.toList.dropWhile isIndent))

/-- What is left out of a line is the blanks at its start and the white space at its end. In
between nothing is changed. -/
theorem exists_shownOf_append (line : String) :
    ∃ trailing, line = String.ofList (line.toList.takeWhile isIndent) ++ shownOf line ++ trailing ∧
      ∀ c ∈ trailing.toList, Text.isWhite c = true := by
  obtain ⟨trailing, htrailing, hwhite⟩ :=
    Text.exists_dropEnd_append Text.isWhite (String.ofList (line.toList.dropWhile isIndent))
  refine ⟨trailing, ?_, hwhite⟩
  rw [String.append_assoc]
  show line = _ ++ (Text.dropEnd Text.isWhite _ ++ trailing)
  rw [← htrailing, Text.ofList_takeWhile_append]

/-- What is shown does not start with a blank. It may be empty, when there is nothing else on the
line. -/
theorem head?_shownOf (line : String) :
    ∀ c ∈ (shownOf line).toList.head?, isIndent c = false := by
  intro c hc
  obtain ⟨trailing, htrailing, -⟩ :=
    Text.exists_dropEnd_append Text.isWhite (String.ofList (line.toList.dropWhile isIndent))
  have hstop := List.head?_dropWhile_not isIndent line.toList
  -- What is shown is what the line begins with behind its blanks.
  have hshown : line.toList.dropWhile isIndent = (shownOf line).toList ++ trailing.toList := by
    rw [← String.toList_ofList (l := line.toList.dropWhile isIndent), htrailing]
    exact String.toList_append
  rw [hshown, List.head?_append, Option.mem_def.mp hc] at hstop
  exact hstop

/-- What is shown does not end with white space, of whatever kind. -/
theorem getLast?_shownOf (line : String) :
    ∀ c ∈ (shownOf line).toList.getLast?, Text.isWhite c = false :=
  Text.getLast?_dropEnd Text.isWhite _

/-- The blanks at the start of a text are as many bytes as they are in its encoding. The width of
the indentation is computed in the one way, and what stands in the source is known in the other. -/
theorem utf8ByteSize_takeWhile_isIndent (text : String) :
    (String.ofList (text.toList.takeWhile isIndent)).utf8ByteSize
      = ((Text.bytes text).takeWhile Byte.isIndent).length := by
  have hascii : ∀ c ∈ (String.ofList (text.toList.takeWhile isIndent)).toList,
      c.toNat < 0x80 := by
    intro c hc
    rw [String.toList_ofList] at hc
    have hindent := List.mem_takeWhile_imp hc
    simp only [isIndent, Bool.or_eq_true, beq_iff_eq] at hindent
    rcases hindent with rfl | rfl <;> decide
  rw [(Text.utf8ByteSize_eq_length_iff _).2.mpr hascii, String.length_ofList,
    length_takeWhile_isIndent]

/-- What is left behind the blanks is as long in its encoding as the bytes behind theirs. -/
theorem utf8ByteSize_dropWhile_isIndent (text : String) :
    (String.ofList (text.toList.dropWhile isIndent)).utf8ByteSize
      = ((Text.bytes text).dropWhile Byte.isIndent).length := by
  have hchars := congrArg String.utf8ByteSize (Text.ofList_takeWhile_append isIndent text)
  have hbytes := congrArg List.length
    (List.takeWhile_append_dropWhile (p := Byte.isIndent) (l := Text.bytes text))
  rw [String.utf8ByteSize_append, utf8ByteSize_takeWhile_isIndent] at hchars
  rw [List.length_append, Text.length_bytes] at hbytes
  omega

/-- A character that is neither is shown, and what stands in front of it but the blanks. So the
sign that a problem starts with is never trimmed away, and nothing in front of it but the indent
is. -/
theorem shownOf_append {c : Char} (hindent : isIndent c = false) (hwhite : Text.isWhite c = false)
    (head behind : String) :
    shownOf (head ++ String.singleton c ++ behind)
      = String.ofList (head.toList.dropWhile isIndent)
        ++ (String.singleton c ++ Text.trimEnd behind) := by
  have hdrop : (head ++ String.singleton c ++ behind).toList.dropWhile isIndent
      = head.toList.dropWhile isIndent ++ c :: behind.toList := by
    rw [String.toList_append, String.toList_append, String.toList_singleton, List.append_assoc,
      List.singleton_append, List.dropWhile_append]
    split
    · next hnone => simp [List.isEmpty_iff.mp hnone, hindent]
    · rfl
  have hsplit : String.ofList (head.toList.dropWhile isIndent ++ c :: behind.toList)
      = String.ofList (head.toList.dropWhile isIndent) ++ String.singleton c ++ behind := by
    rw [String.ext_iff]
    simp
  unfold shownOf Text.trimEnd
  rw [hdrop, hsplit, Text.dropEnd_append hwhite, String.append_assoc]

/-! ### The parts of a diagnostic -/

/-- The parts that the five lines of a diagnostic are made of. -/
structure Sheet where
  /-- The first line. -/
  header : String
  /-- The place of the problem. -/
  location : Location
  /-- How many blanks stand in front of the bars. -/
  margin : Nat
  /-- What is shown of the line of the source. -/
  shown : String
  /-- How many dashes stand in front of the caret. -/
  dashes : Nat

namespace Sheet

/-- The lines, the last three of which have a bar. -/
def lines (sheet : Sheet) : List String :=
  let number := toString sheet.location.line
  let blanks := String.ofList (List.replicate sheet.margin ' ')
  [sheet.header,
    "-> <input>:" ++ number ++ ":" ++ toString sheet.location.column,
    blanks ++ "|",
    number ++ " | " ++ sheet.shown,
    blanks ++ "| " ++ String.ofList (List.replicate sheet.dashes '-') ++ "^"]

/-- The lines with a line feed behind each. -/
def text (sheet : Sheet) : String := String.join (sheet.lines.map (· ++ "\n"))

/-- The parts go with a source and a problem in it. The bars stand below each other, and what is
shown is the line of the problem without the blanks in front of it and the white space behind it.
As many bytes as there are dashes stand between what is left out in front and the problem, whose
first byte is shown. -/
structure Describes (source : Source) (useColor : Bool) (problem : Problem) (sheet : Sheet) :
    Prop where
  header_eq : ∃ tip, problem.cause.tip? = some tip ∧ sheet.header
    = errorWord useColor ++ ": " ++ problem.cause.name ++ " (" ++ tip ++ ")"
  resolve_eq : Session.resolve { Session.ofSource source with useColor := useColor } problem.span
    = .ok (.ok sheet.location)
  locates : sheet.location.Locates source problem.span.start
  margin_eq : sheet.margin = (toString sheet.location.line ++ " ").length
  lineText_eq : ∃ indent trailing,
    (Session.ofSource source).lineText? sheet.location.line
      = some (indent ++ sheet.shown ++ trailing) ∧
    (∀ c ∈ indent.toList, c = ' ' ∨ c = '\t') ∧ (∀ c ∈ trailing.toList, Text.isWhite c = true) ∧
    indent.utf8ByteSize + sheet.dashes = sheet.location.column - 1
  head_shown : ∀ c ∈ sheet.shown.toList.head?, c ≠ ' ' ∧ c ≠ '\t'
  last_shown : ∀ c ∈ sheet.shown.toList.getLast?, Text.isWhite c = false
  dashes_lt : sheet.dashes < sheet.shown.utf8ByteSize
  byte_eq : (Text.bytes sheet.shown)[sheet.dashes]? = source.bytes[problem.span.start]?
  holds_shown : ∃ start, start + sheet.dashes = problem.span.start ∧
    source.Holds ⟨start, sheet.shown.utf8ByteSize⟩ sheet.shown
  lineFeed_not_mem : ∀ line ∈ sheet.lines, '\n' ∉ line.toList

/-- What is shown is cut in two where an offset into the source is, and goes on behind it. -/
structure CutAt (source : Source) (offset : Nat) (before after : String) (sheet : Sheet) :
    Prop where
  shown_eq : sheet.shown = before ++ after
  holds_after : source.Holds ⟨offset, after.utf8ByteSize⟩ after
  after_ne : after ≠ ""

/-- The lines of a diagnostic are single lines if its texts are: the header and the line that is
shown are the two that come from elsewhere. -/
theorem lineFeed_not_mem_lines {sheet : Sheet} (hheader : '\n' ∉ sheet.header.toList)
    (hshown : '\n' ∉ sheet.shown.toList) : ∀ line ∈ sheet.lines, '\n' ∉ line.toList := by
  simp [lines, hheader, hshown, Text.lineFeed_not_mem_toDigits]

end Sheet

/-- The parts of the diagnostic of a problem. They are computed from the source and the span,
without padding, so that they exist also where the diagnostic cannot be written. -/
def sheetOf (source : Source) (useColor : Bool) (problem : Problem) : Sheet where
  header := errorWord useColor ++ ": " ++ problem.cause.name
    ++ problem.cause.tip?.elim "" fun tip => " (" ++ tip ++ ")"
  location := problem.span.location source none
  margin := (toString (problem.span.location source none).line).length + 1
  shown := shownOf (((Session.ofSource source).lineText?
    (problem.span.location source none).line).getD "")
  dashes := source.caretWidth problem.span.start - 1

/-- The line of a problem is shown as `before`, then the byte that the problem starts with, which
is a character, and then `after`. -/
structure ShownAs (source : Source) (problem : Problem) (line before : String) (b : UInt8)
    (after : String) : Prop where
  lineText_eq : (Session.ofSource source).lineText? (problem.span.location source none).line
    = some line
  byte_eq : source.bytes[problem.span.start]? = some b
  ascii : b < 0x80
  shown_eq : shownOf line = before ++ (String.singleton (Char.ofUInt8 b) ++ after)
  before_eq : before.utf8ByteSize = source.caretWidth problem.span.start - 1
  column_eq : (String.ofList (line.toList.takeWhile isIndent)).utf8ByteSize + before.utf8ByteSize
    = (problem.span.location source none).column - 1

namespace ShownAs

variable {source : Source} {problem : Problem} {line before after : String} {b : UInt8}

/-- What the sheet shows is what is shown of the line that the problem stands on. -/
theorem shown_sheetOf (h : ShownAs source problem line before b after) (useColor : Bool) :
    (sheetOf source useColor problem).shown = shownOf line := by
  show shownOf (Option.getD _ "") = _
  rw [h.lineText_eq, Option.getD_some]

/-- The sheet has a dash for each byte shown in front of the problem. A byte, and not a character:
the two differ outside of ASCII. -/
theorem dashes_sheetOf (h : ShownAs source problem line before b after) (useColor : Bool) :
    (sheetOf source useColor problem).dashes = before.utf8ByteSize :=
  h.before_eq.symm

/-- The byte that the problem starts with follows on the bytes in front of it. -/
theorem bytes_shownOf (h : ShownAs source problem line before b after) :
    Text.bytes (shownOf line) = Text.bytes before ++ b :: Text.bytes after := by
  rw [h.shown_eq, Text.bytes_append, Text.bytes_append, Text.bytes_singleton_toChar h.ascii,
    List.singleton_append]

/-- What is shown stands in the source, and the problem as many bytes behind its start as there
are in front of the problem. -/
theorem exists_holds (h : ShownAs source problem line before b after)
    (hstart : problem.span.start ≤ source.size) :
    ∃ start, start + before.utf8ByteSize = problem.span.start ∧
      source.Holds ⟨start, (shownOf line).utf8ByteSize⟩ (shownOf line) := by
  obtain ⟨start, hget, hsum⟩ := (problem.span.locates_location source none).column_eq
  have hfirst : (LineTable.ofSource source).startAt
      ((LineTable.ofSource source).index problem.span.start) = start :=
    congrArg (Option.getD · 0) hget
  obtain ⟨stop, text, hholds, -, -, htext⟩ := LineTable.exists_lineText hstart
  have hline : Text.dropEnd Text.isLineBreak text = line :=
    Option.some.inj (htext.symm.trans h.lineText_eq)
  -- The line goes on behind what is shown, with white space and then with its break.
  obtain ⟨dropped, hdropped, -⟩ := Text.exists_dropEnd_append Text.isLineBreak text
  obtain ⟨trailing, htrailing, -⟩ := exists_shownOf_append line
  rw [hline] at hdropped
  rw [hfirst, hdropped, htrailing, String.append_assoc] at hholds
  refine ⟨_, ?_, hholds.of_append⟩
  rw [Nat.add_assoc, h.column_eq, hsum]

end ShownAs

/-! ### A recorded problem -/

section Recorded

variable {source : Source} {config : Config} {useColor : Bool} {problem : Problem}
  {front rest : List UInt8} {b : UInt8}

/-- No byte of a number ends a line. -/
theorem isLineBreak_of_continuesNumber : ∀ {b : UInt8}, Byte.continuesNumber b = true →
    Byte.isLineBreak b = false := by
  rintro ⟨b⟩
  revert b
  decide

/-- The name of a cause is on one line. -/
theorem lineFeed_not_mem_name (cause : Cause) : '\n' ∉ cause.name.toList := by
  cases cause <;> simp only [Cause.name] <;> decide

/-- The line of a sign is shown from behind its blanks on, up to the sign at least. The sign is an
ASCII byte that is neither blank nor white, as the first byte of every recorded problem is. -/
theorem exists_shownOf_eq (hbytes : source.bytes = front ++ b :: rest) (hascii : b < 0x80)
    (hblank : Byte.isBlank b = false) (hwhite : Text.isWhite (Char.ofUInt8 b) = false) :
    ∃ line before after,
      (LineTable.ofSource source).lineText? source
        ((LineTable.ofSource source).index front.length + 1) = some line ∧
      shownOf line = before ++ (String.singleton (Char.ofUInt8 b) ++ after) ∧
      before.utf8ByteSize = source.caretWidth front.length - 1 ∧
      (String.ofList (line.toList.takeWhile isIndent)).utf8ByteSize + before.utf8ByteSize
        = (source.lineHead front.length).length := by
  obtain ⟨head, behind, hhead, htext⟩ :=
    LineTable.exists_lineText_append hbytes hascii (isLineBreak_of_isBlank hblank)
  have hchar := (isIndent_toChar hascii).trans (isIndent_of_isBlank hblank)
  refine ⟨_, _, _, htext, shownOf_append hchar hwhite head behind, ?_, ?_⟩
  · rw [utf8ByteSize_dropWhile_isIndent, hhead, Source.caretWidth, Nat.add_sub_cancel]
  · -- The sign is no blank, so the line and what stands in front of the sign have the same blanks.
    rw [String.toList_append, String.toList_append, String.toList_singleton, List.append_assoc,
      List.singleton_append, takeWhile_append_cons hchar, ← String.utf8ByteSize_append,
      Text.ofList_takeWhile_append, ← Text.length_bytes, hhead]

/-- The header of a cause with a tip. -/
theorem header_sheetOf {tip : String} (htip : problem.cause.tip? = some tip) :
    (sheetOf source useColor problem).header
      = errorWord useColor ++ ": " ++ problem.cause.name ++ " (" ++ tip ++ ")" := by
  show _ ++ problem.cause.tip?.elim "" _ = _
  rw [htip]
  simp [String.append_assoc]

/-- The parts together make the header and the lines below it, as the text of a diagnostic is put
together. -/
theorem text_sheetOf (directory : List String) :
    (sheetOf source useColor problem).text
      = header useColor problem.cause
        ++ rows { Session.ofSource source with useColor := useColor } directory
          (problem.span.location source none)
          (String.ofList (List.replicate (source.caretWidth problem.span.start - 1) '-')
            ++ "^") := by
  have hplace : place { Session.ofSource source with useColor := useColor } directory
      = "<input>" := rfl
  unfold Sheet.text Sheet.lines rows header
  rw [hplace, String.ext_iff]
  cases htip : problem.cause.tip? with
  | none => simp [sheetOf, shownOf, htip, Session.lineText?, Session.ofSource, String.join]
  | some tip => simp [sheetOf, shownOf, htip, Session.lineText?, Session.ofSource, String.join]

variable (h : problem ∈ (Lexeme.readings config 0 source.bytes).filterMap (·.problem))

include h

/-- A recorded problem has a tip, which is on one line. The text of a malformed number is part of
the tip, and it holds digits and dots only. -/
theorem exists_tip_of_mem_problems :
    ∃ tip, problem.cause.tip? = some tip ∧ '\n' ∉ tip.toList := by
  obtain ⟨front, lexeme, rest, -, hends, hproblem⟩ := exists_lexeme_of_mem_problems h
  rcases Lexeme.problem_readAt_cases hproblem with
    ⟨run, rfl, -, rfl⟩ | ⟨isDoc, content, depth, rfl, rfl⟩
  · refine ⟨_, rfl, ?_⟩
    -- The tip quotes the number, and all of its bytes are digits and dots.
    have hrun : ∀ c ∈ (Text.decode run).toList, Text.isLineBreak c = false := by
      cases hends with
      | number hb hrun =>
          refine Text.isLineBreak_of_bytes ?_
          rw [Text.bytes_decode (Lexeme.encoded_number hb hrun), List.forall_mem_cons]
          refine ⟨isLineBreak_of_continuesNumber ?_, ?_⟩
          · simp [Byte.continuesNumber, hb]
          · intro c hc
            exact isLineBreak_of_continuesNumber (hrun.within c hc)
    have hfeed : '\n' ∉ (Text.decode run).toList := by
      intro hmem
      cases hrun '\n' hmem
    simp [hfeed]
  · refine ⟨_, rfl, ?_⟩
    simp [Text.lineFeed_not_mem_toDigits]

/-- The byte that a recorded problem starts with is shown. In front of it stand as many bytes as
the caret has dashes, and with the indent they make up the column. -/
theorem exists_shownAs : ∃ line before b after, ShownAs source problem line before b after := by
  obtain ⟨front, b, rest, hbytes, hsign, hstart⟩ := exists_sign_of_mem_problems h
  obtain ⟨hascii, hblank, hwhite⟩ := plain_of_sign hsign
  obtain ⟨line, before, after, hline, hshown, hbefore, hcolumn⟩ :=
    exists_shownOf_eq hbytes hascii hblank hwhite
  rw [← hstart] at hline hbefore hcolumn
  refine ⟨line, before, b, after, hline, ?_, hascii, hshown, hbefore, ?_⟩
  · rw [hstart, hbytes, List.getElem?_append_right (Nat.le_refl _), Nat.sub_self]
    rfl
  · rw [hcolumn, column_location hbytes hblank hstart, hstart, Nat.add_sub_cancel]

/-- The parts of the diagnostic of a recorded problem go with the source and the problem, one
field of `Sheet.Describes` after the other. -/
theorem describes_sheetOf :
    (sheetOf source useColor problem).Describes source useColor problem := by
  obtain ⟨tip, htip, htipLine⟩ := exists_tip_of_mem_problems h
  obtain ⟨line, before, b, after, hshows⟩ := exists_shownAs h
  obtain ⟨trailing, htrailing, hwhite⟩ := exists_shownOf_append line
  have hshown := hshows.shown_sheetOf useColor
  have hdashes := hshows.dashes_sheetOf useColor
  have hstop := stop_le_of_mem_problems h
  have hstart : problem.span.start ≤ source.size := Nat.le_trans (Nat.le_add_right _ _) hstop
  constructor
  case header_eq => exact ⟨tip, htip, header_sheetOf htip⟩
  case resolve_eq =>
    have hlimit : problem.span.stop + 0 < addressLimit :=
      Source.add_lt_addressLimit hstop (Nat.zero_le source.size)
    show problem.span.resolve source (LineTable.ofSource source) none = _
    exact Span.resolve_of_le hstart hlimit
  case locates => exact problem.span.locates_location source none
  case margin_eq =>
    show _ = String.length (_ ++ " ")
    rw [String.length_append]
    rfl
  case lineText_eq =>
    refine ⟨String.ofList (line.toList.takeWhile isIndent), trailing, ?_, ?_, hwhite, ?_⟩
    · rw [hshown, ← htrailing]
      exact hshows.lineText_eq
    · intro c hc
      rw [String.toList_ofList] at hc
      simpa [isIndent] using List.mem_takeWhile_imp hc
    · rw [hdashes]
      exact hshows.column_eq
  case head_shown =>
    intro c hc
    rw [hshown] at hc
    simpa [isIndent] using head?_shownOf line c hc
  case last_shown =>
    rw [hshown]
    exact getLast?_shownOf line
  case dashes_lt =>
    rw [hshown, hdashes, ← Text.length_bytes, ← Text.length_bytes, hshows.bytes_shownOf,
      List.length_append, List.length_cons]
    omega
  case byte_eq =>
    rw [hshown, hdashes, hshows.byte_eq, hshows.bytes_shownOf, ← Text.length_bytes,
      List.getElem?_append_right (Nat.le_refl _), Nat.sub_self]
    rfl
  case holds_shown =>
    rw [hshown, hdashes]
    exact hshows.exists_holds hstart
  case lineFeed_not_mem =>
    refine Sheet.lineFeed_not_mem_lines ?_ ?_
    · have hword : '\n' ∉ (errorWord useColor).toList := by
        cases useColor <;> decide
      simp [header_sheetOf htip, htipLine, hword, lineFeed_not_mem_name]
    · rw [hshown]
      intro hmem
      refine LineTable.lineFeed_not_mem_lineText hshows.lineText_eq ?_
      rw [htrailing]
      simp [hmem]

/-- What is shown is cut at the start of the problem, behind as many bytes as there are dashes.
The cut is between characters, so there is a number of characters in front of it as well. -/
theorem exists_cutAt (useColor : Bool) :
    ∃ before after, (sheetOf source useColor problem).CutAt source problem.span.start before after ∧
      before.utf8ByteSize = (sheetOf source useColor problem).dashes := by
  obtain ⟨line, before, b, after, hshows⟩ := exists_shownAs h
  have hstart : problem.span.start ≤ source.size :=
    Nat.le_trans (Nat.le_add_right _ _) (stop_le_of_mem_problems h)
  refine ⟨before, String.singleton (Char.ofUInt8 b) ++ after, ⟨?_, ?_, ?_⟩, hshows.before_eq⟩
  · rw [hshows.shown_sheetOf useColor, hshows.shown_eq]
  · obtain ⟨start, hsum, hholds⟩ := hshows.exists_holds hstart
    rw [hshows.shown_eq, ← String.append_empty (s := before ++ _)] at hholds
    rw [← hsum]
    exact hholds.of_append
  · intro hempty
    have htoList := congrArg String.toList hempty
    simp at htoList

/-- The diagnostic of a recorded problem has these parts. `hcolumn` keeps the caret's line within
what can be padded; the column is at least as large as its width. -/
theorem render_eq_sheetOf (hcolumn : (problem.span.location source none).column ≤ paddingLimit)
    (directory : List String) :
    render problem { Session.ofSource source with useColor := useColor } directory
      = .ok (sheetOf source useColor problem).text := by
  obtain ⟨front, b, rest, hbytes, hascii, hblank, hstart⟩ := exists_ascii_of_mem_problems h
  -- The caret's line is no wider than the line of the source up to the problem.
  have hwidth : source.caretWidth front.length ≤ paddingLimit := by
    have hdrop := List.length_dropWhile_le Byte.isIndent (source.lineHead front.length)
    rw [column_location hbytes hblank hstart] at hcolumn
    rw [Source.caretWidth]
    omega
  rw [render_eq hbytes hascii hblank hstart (stop_le_of_mem_problems h), padStart_eq_ok hwidth,
    text_sheetOf directory, hstart]
  rfl

end Recorded

end Diagnostic

/-! ### The diagnostics of a run -/

/-- The parts of the diagnostic of a recorded problem agree in bytes. It has five lines, with the
bars of the last three below each other, and in front of the caret a dash for each byte that is
shown in front of the problem. The sheet describes every problem, and it is written out for those
whose column can be padded to. -/
theorem drains_diagnostic (source : Source) (config : Config) :
    ∃ tokens problems, Lexer.Drains source config tokens problems ∧
      ∀ problem ∈ problems, ∀ directory, ∃ sheet : Diagnostic.Sheet,
        sheet.Describes source false problem ∧
        (sheet.location.column ≤ paddingLimit →
          Diagnostic.render problem { Session.ofSource source with useColor := false } directory
            = .ok sheet.text) := by
  refine ⟨_, _, Lexer.drains_readings source config, ?_⟩
  intro problem hproblem directory
  refine ⟨Diagnostic.sheetOf source false problem, Diagnostic.describes_sheetOf hproblem, ?_⟩
  intro hcolumn
  exact Diagnostic.render_eq_sheetOf hproblem hcolumn directory

/-- A number with two dots on a line that starts and ends with blanks. -/
def indentedNumber : Source := ⟨"  a 1.2.3 ", _, rfl, by decide⟩

/-- The diagnostic of the number shows the line without the blanks on either side, and two dashes
below the two characters that are shown in front of the number. -/
theorem drains_diagnostic_indented :
    ∃ sheet : Diagnostic.Sheet,
      sheet.Describes indentedNumber false ⟨.malformedNumber "1.2.3", ⟨4, 5⟩⟩ ∧
      sheet.location.column ≤ paddingLimit ∧
      Diagnostic.render ⟨.malformedNumber "1.2.3", ⟨4, 5⟩⟩
        { Session.ofSource indentedNumber with useColor := false } [] = .ok sheet.text ∧
      sheet.text = "error: MalformedNumber "
        ++ "(Invalid number: `1.2.3`, a number may contain at most one `.`)\n"
        ++ "-> <input>:1:5\n"
        ++ "  |\n"
        ++ "1 | a 1.2.3\n"
        ++ "  | --^\n" := by
  obtain ⟨tokens, problems, hdrains, hsheet⟩ := drains_diagnostic indentedNumber {}
  have hfound : Lexer.Drains indentedNumber {} [⟨.ident "a", ⟨2, 1⟩⟩]
      [⟨.malformedNumber "1.2.3", ⟨4, 5⟩⟩] :=
    ⟨_, (Lexer.drain_of_some rfl).trans (congrArg _ (Lexer.drain_of_none rfl)), rfl⟩
  obtain ⟨rfl, rfl⟩ := hdrains.unique hfound
  obtain ⟨sheet, hdescribes, hrender⟩ := hsheet _ (List.mem_singleton_self _) []
  have hcolumn : sheet.location.column ≤ paddingLimit := by
    have hlocation := Except.ok.inj (Except.ok.inj (hdescribes.resolve_eq.symm.trans rfl))
    rw [hlocation]
    decide
  refine ⟨sheet, hdescribes, hcolumn, hrender hcolumn, ?_⟩
  refine Except.ok.inj ((hrender hcolumn).symm.trans ?_)
  decide +kernel

/-- There are as many dashes in front of the caret as bytes in front of the problem, in what is
shown of its line. So the caret stands below the character that the problem starts with if and only
if all that is shown in front of that character is ASCII, and otherwise to the right of it. -/
theorem drains_caret (source : Source) (config : Config) :
    ∃ tokens problems, Lexer.Drains source config tokens problems ∧
      ∀ problem ∈ problems, ∀ useColor directory,
        ∃ (sheet : Diagnostic.Sheet) (before after : String),
          sheet.Describes source useColor problem ∧
          (sheet.location.column ≤ paddingLimit →
            Diagnostic.render problem { Session.ofSource source with useColor := useColor }
              directory = .ok sheet.text) ∧
          sheet.CutAt source problem.span.start before after ∧
          before.utf8ByteSize = sheet.dashes ∧ before.length ≤ sheet.dashes ∧
          (sheet.dashes = before.length ↔ ∀ c ∈ before.toList, c.toNat < 0x80) := by
  refine ⟨_, _, Lexer.drains_readings source config, ?_⟩
  intro problem hproblem useColor directory
  obtain ⟨before, after, hcut, hdashes⟩ :=
    Diagnostic.exists_cutAt hproblem useColor
  obtain ⟨hle, hascii⟩ := Text.utf8ByteSize_eq_length_iff before
  rw [hdashes] at hle hascii
  refine ⟨Diagnostic.sheetOf source useColor problem, before, after,
    Diagnostic.describes_sheetOf hproblem, ?_, hcut, hdashes, hle, hascii⟩
  intro hcolumn
  exact Diagnostic.render_eq_sheetOf hproblem hcolumn directory

/-- A literal with a letter outside of ASCII, and behind it a number with two dots. -/
def numberBehindAccent : Source := ⟨"\"é\" 1.2.3", _, rfl, by decide⟩

/-- Four characters are shown in front of the number, and five dashes below them. -/
theorem render_numberBehindAccent :
    (∃ tokens, Lexer.Drains numberBehindAccent {} tokens [⟨.malformedNumber "1.2.3", ⟨5, 5⟩⟩]) ∧
    numberBehindAccent.Holds ⟨5, 5⟩ "1.2.3" ∧
    "\"é\" ".length = 4 ∧ "-----".length = 5 ∧
    ∀ directory, Diagnostic.render ⟨.malformedNumber "1.2.3", ⟨5, 5⟩⟩
        { Session.ofSource numberBehindAccent with useColor := false } directory
      = .ok ("error: MalformedNumber "
        ++ "(Invalid number: `1.2.3`, a number may contain at most one `.`)\n"
        ++ "-> <input>:1:6\n"
        ++ "  |\n"
        ++ "1 | " ++ ("\"é\" " ++ "1.2.3") ++ "\n"
        ++ "  | " ++ "-----" ++ "^\n") := by
  have hdrains : Lexer.Drains numberBehindAccent {}
      [⟨.literal (.quoted .string "é" true), ⟨1, 2⟩⟩] [⟨.malformedNumber "1.2.3", ⟨5, 5⟩⟩] :=
    ⟨_, (Lexer.drain_of_some rfl).trans (congrArg _ (Lexer.drain_of_none rfl)), rfl⟩
  have hmem : (⟨.malformedNumber "1.2.3", ⟨5, 5⟩⟩ : Problem)
      ∈ (Lexeme.readings {} 0 numberBehindAccent.bytes).filterMap (·.problem) := by
    rw [← (hdrains.unique (Lexer.drains_readings _ _)).2]
    exact List.mem_singleton_self _
  refine ⟨⟨_, hdrains⟩, ⟨"\"é\" ", "", by decide, rfl⟩, by decide, by decide, ?_⟩
  intro directory
  rw [Diagnostic.render_eq_sheetOf hmem (by decide +kernel)]
  exact congrArg _ (by decide +kernel)

end Lexis
