import Lexis.Proofs.LineText
import Lexis.Session

/-!
# `Lexis.Proofs.Lines`: a source is its lines

The table of a source cuts it in front of the byte behind each line break, and the text of a
line leaves out whatever line breaks are made of at the end of the cut. Nothing else is lost,
and no two breaks are taken for one: a source is put together again from the texts of its lines
and one break behind each. The theorems:

* `exists_lined`: every text is cut into lines.
* `Lined.bytes_joined`: lines and their breaks make up the text.
* `Lined.getElem?_starts`: the table starts each line behind the lines in front of it.
* `Lined.dropEnd_whole`: what is left out at the end of a line is its own break.
* `splits_ofSource`: the lines of a session.
-/

set_option autoImplicit false

namespace Lexis

open Text (Encoded)

/-- A line: its text, and the line break behind it. -/
structure Line where
  text : String
  ending : String
  deriving DecidableEq, Repr, Inhabited

namespace Line

/-- A line with its break. -/
def whole (line : Line) : String := line.text ++ line.ending

/-- Lines one behind the other, with their breaks. -/
def joined (lines : List Line) : String := String.join (lines.map whole)

/-- The first line with its break, and then the others. -/
theorem joined_cons (line : Line) (lines : List Line) :
    joined (line :: lines) = line.whole ++ joined lines := String.join_cons

/-- Lines in two rows, one row behind the other. -/
theorem joined_append (front lines : List Line) :
    joined (front ++ lines) = joined front ++ joined lines := by
  rw [joined, List.map_append, String.join_append]
  rfl

end Line

/-! ### Texts cut into lines -/

/-- A line break in front of the bytes `rest`. A carriage return is one by itself where no line
feed follows. -/
inductive BreaksBefore (rest : List UInt8) : String → Prop where
  | both : BreaksBefore rest "\r\n"
  | lineFeed : BreaksBefore rest "\n"
  | carriageReturn (hrest : rest.head? ≠ some Byte.lineFeed) : BreaksBefore rest "\r"

/-- Bytes and the lines that they are cut into. Each text is without line breaks and is followed
by one, but for the last, which has nothing behind it. This is the description that the table of a
source is compared with: it cuts where a break is written, and not at an offset. -/
inductive Lined : List UInt8 → List Line → Prop where
  | last {text : String} (htext : ∀ b ∈ Text.bytes text, Byte.isLineBreak b = false) :
      Lined (Text.bytes text) [⟨text, ""⟩]
  | line {text ending : String} {rest : List UInt8} {lines : List Line}
      (htext : ∀ b ∈ Text.bytes text, Byte.isLineBreak b = false)
      (hending : BreaksBefore rest ending) (hrest : Lined rest lines) :
      Lined (Text.bytes text ++ (Text.bytes ending ++ rest)) (⟨text, ending⟩ :: lines)

/-- Where a line break begins, there is a whole one, and text goes on behind it. A carriage return
takes the line feed behind it along. -/
theorem exists_breaksBefore {b : UInt8} (hb : Byte.isLineBreak b = true) {rest : List UInt8}
    (h : Encoded rest) : ∃ ending tail, b :: rest = Text.bytes ending ++ tail ∧
      BreaksBefore tail ending ∧ Encoded tail ∧ tail.length ≤ rest.length := by
  simp only [Byte.isLineBreak, Bool.or_eq_true, beq_iff_eq] at hb
  rcases hb with rfl | rfl
  · exact ⟨"\n", rest, rfl, .lineFeed, h, Nat.le_refl _⟩
  · by_cases hfeed : rest.head? = some Byte.lineFeed
    · obtain ⟨tail, rfl⟩ := List.head?_eq_some_iff.mp hfeed
      have hsplit : Encoded ([] ++ Byte.lineFeed :: tail) := h
      exact ⟨"\r\n", tail, rfl, .both, (hsplit.split_ascii (by decide)).2, Nat.le_succ _⟩
    · exact ⟨"\r", rest, rfl, .carriageReturn hfeed, h, Nat.le_refl _⟩

/-- Every text is cut into lines. The first line goes up to the first byte of a line break, and
behind the break there are fewer bytes to cut. -/
theorem exists_lined {bytes : List UInt8} (h : Encoded bytes) : ∃ lines, Lined bytes lines := by
  induction hn : bytes.length using Nat.strongRecOn generalizing bytes with
  | ind n ih =>
      subst hn
      -- The first line goes up to the first byte of a line break.
      have hsplit : bytes.takeWhile (fun b => !Byte.isLineBreak b)
          ++ bytes.dropWhile (fun b => !Byte.isLineBreak b) = bytes :=
        List.takeWhile_append_dropWhile
      have hfront : ∀ b ∈ bytes.takeWhile fun b => !Byte.isLineBreak b,
          Byte.isLineBreak b = false := by
        intro b hb
        simpa using List.mem_takeWhile_imp hb
      generalize bytes.takeWhile (fun b => !Byte.isLineBreak b) = front at hsplit hfront
      cases hrest : bytes.dropWhile fun b => !Byte.isLineBreak b with
      | nil =>
          rw [hrest, List.append_nil] at hsplit
          subst hsplit
          obtain ⟨text, rfl⟩ := h
          exact ⟨_, .last hfront⟩
      | cons b rest =>
          have hb : Byte.isLineBreak b = true := by
            have hnot := List.head?_dropWhile_not (fun b => !Byte.isLineBreak b) bytes
            rw [hrest] at hnot
            simpa using hnot
          rw [hrest] at hsplit
          subst hsplit
          obtain ⟨⟨text, rfl⟩, hlater⟩ := h.split_ascii (Byte.ascii_of_isLineBreak hb)
          obtain ⟨ending, tail, htail, hending, hencoded, hlength⟩ := exists_breaksBefore hb hlater
          have hshorter : tail.length < (Text.bytes text ++ b :: rest).length := by
            rw [List.length_append, List.length_cons]
            omega
          obtain ⟨lines, hlines⟩ := ih tail.length hshorter hencoded rfl
          rw [htail]
          exact ⟨_, .line hfront hending hlines⟩

namespace Lined

variable {bytes : List UInt8} {lines : List Line}

/-- Lines and their breaks make up the text, with nothing left out and nothing added. -/
theorem bytes_joined (h : Lined bytes lines) : Text.bytes (Line.joined lines) = bytes := by
  induction h with
  | @last text _ =>
      rw [Line.joined_cons, Text.bytes_append, Line.whole, Text.bytes_append]
      simp [Line.joined, Text.bytes]
  | line _ _ _ ih =>
      rw [Line.joined_cons, Text.bytes_append, Line.whole, Text.bytes_append, ih,
        List.append_assoc]

/-- No text of a line holds a character of a line break. -/
theorem isLineBreak_eq_false (h : Lined bytes lines) :
    ∀ line ∈ lines, ∀ b ∈ Text.bytes line.text, Byte.isLineBreak b = false := by
  induction h with
  | last htext =>
      intro line hline
      obtain rfl := List.mem_singleton.mp hline
      exact htext
  | line htext _ _ ih =>
      intro line hline
      rcases List.mem_cons.mp hline with rfl | hline
      · exact htext
      · exact ih line hline

/-- Each line ends with a line break, but for the last one, which has none. -/
theorem endings (h : Lined bytes lines) : ∃ front last, lines = front ++ [last] ∧
    last.ending = "" ∧ ∀ line ∈ front, line.ending ∈ ["\r\n", "\n", "\r"] := by
  induction h with
  | last _ => exact ⟨[], _, rfl, rfl, nofun⟩
  | @line text ending _ _ _ hending _ ih =>
      obtain ⟨front, last, rfl, hlast, hfront⟩ := ih
      refine ⟨⟨text, ending⟩ :: front, last, rfl, hlast, ?_⟩
      intro line hline
      rcases List.mem_cons.mp hline with rfl | hline
      · cases hending <;> simp
      · exact hfront line hline

end Lined

/-! ### Lines and line breaks -/

/-- Bytes that are no part of a line break are passed over, and the line breaks behind them are
found where they stand. -/
theorem lineBreaks_append {front : List UInt8} (h : ∀ b ∈ front, Byte.isLineBreak b = false)
    (offset : Nat) (rest : List UInt8) :
    lineBreaks offset (front ++ rest) = lineBreaks (offset + front.length) rest := by
  induction front generalizing offset with
  | nil => rfl
  | cons a front ih =>
      have ha : Byte.isLineBreak a = false := h a List.mem_cons_self
      have hfront : ∀ b ∈ front, Byte.isLineBreak b = false := by
        intro b hb
        exact h b (List.mem_cons_of_mem a hb)
      have hreturn : (a == Byte.carriageReturn) = false := by
        rw [Byte.isLineBreak, Bool.or_eq_false_iff] at ha
        exact ha.2
      have hskip : lineBreaks offset (a :: (front ++ rest))
          = lineBreaks (offset + 1) (front ++ rest) := by
        cases front ++ rest with
        | nil => simp [lineBreaks, ha]
        | cons b more => simp [lineBreaks, ha, hreturn]
      rw [List.cons_append, hskip, ih hfront, List.length_cons]
      congr 1
      omega

/-- A line break is found as it is written: one break, with as many bytes as it has, and the
search goes on behind it. -/
theorem lineBreaks_of_breaksBefore {ending : String} {rest : List UInt8}
    (h : BreaksBefore rest ending) (offset : Nat) :
    lineBreaks offset (Text.bytes ending ++ rest)
      = ⟨offset, ending.utf8ByteSize⟩ :: lineBreaks (offset + ending.utf8ByteSize) rest := by
  cases h with
  | both => rfl
  | lineFeed =>
      cases rest with
      | nil => rfl
      | cons b more => rfl
  | carriageReturn hrest =>
      cases rest with
      | nil => rfl
      | cons b more =>
          have hb : (b == Byte.lineFeed) = false := by simpa using hrest
          show lineBreaks offset (Byte.carriageReturn :: b :: more) = _
          rw [lineBreaks, hb]
          rfl

namespace Lined

variable {bytes : List UInt8} {lines : List Line}

/-- The first line starts at the offset of the bytes, and each other one behind the lines in front
of it. There are no more starts than there are lines. The induction is on how the bytes are cut. -/
theorem getElem?_starts (h : Lined bytes lines) (offset index : Nat) :
    (offset :: (lineBreaks offset bytes).map Span.stop)[index]?
      = if index < lines.length then
          some (offset + (Line.joined (lines.take index)).utf8ByteSize)
        else none := by
  induction h generalizing offset index with
  | @last text htext =>
      have hnone : lineBreaks offset (Text.bytes text) = [] := by
        rw [← List.append_nil (Text.bytes text), lineBreaks_append htext]
        rfl
      rw [hnone]
      cases index with
      | zero => simp [Line.joined]
      | succ index => simp
  | @line text ending rest lines htext hending _ ih =>
      rw [lineBreaks_append htext, lineBreaks_of_breaksBefore hending, List.map_cons]
      cases index with
      | zero => simp [Line.joined]
      | succ index =>
          have hnext := ih (offset + (Text.bytes text).length + ending.utf8ByteSize) index
          rw [List.getElem?_cons_succ]
          refine hnext.trans ?_
          rw [List.take_succ_cons, Line.joined_cons, String.utf8ByteSize_append, Line.whole,
            String.utf8ByteSize_append, Text.length_bytes, List.length_cons]
          simp only [Nat.add_lt_add_iff_right, Nat.add_assoc]

/-! ### The lines of a source -/

variable {source : Source} {index : Nat} {line : Line}

/-- The text of a source is that of its lines, with their breaks. -/
theorem text_eq (h : Lined source.bytes lines) : source.text = Line.joined lines := by
  refine Text.bytes_injective ?_
  rw [← source.bytes_eq, h.bytes_joined]

/-- Each line stands behind the lines in front of it, its break included, and begins and ends
between characters. -/
theorem holds (h : Lined source.bytes lines) (hline : lines[index]? = some line) :
    source.Holds ⟨(Line.joined (lines.take index)).utf8ByteSize, line.whole.utf8ByteSize⟩
      line.whole := by
  obtain ⟨hindex, rfl⟩ := List.getElem?_eq_some_iff.mp hline
  refine ⟨Line.joined (lines.take index), Line.joined (lines.drop (index + 1)), ?_, rfl⟩
  rw [String.append_assoc, ← Line.joined_cons, ← List.drop_eq_getElem_cons hindex,
    ← Line.joined_append, List.take_append_drop]
  exact h.text_eq

/-- The table of a source starts a line behind the lines in front of it, and starts no other. The
table cuts in front of the byte behind each break. -/
theorem getElem?_starts_ofSource (h : Lined source.bytes lines) (index : Nat) :
    (LineTable.ofSource source).starts[index]? = if index < lines.length then
      some (Line.joined (lines.take index)).utf8ByteSize else none := by
  have hstarts := h.getElem?_starts 0 index
  rw [Nat.zero_add] at hstarts
  rw [LineTable.starts_ofSource]
  exact hstarts

/-- The table of a source has as many lines as the source is cut into. Their number is where the
starts end, on both sides. -/
theorem length_eq (h : Lined source.bytes lines) :
    lines.length = (LineTable.ofSource source).count := by
  refine Nat.le_antisymm ?_ ?_
  · by_contra hlt
    have hnone := h.getElem?_starts_ofSource (LineTable.ofSource source).count
    rw [if_pos (Nat.not_le.mp hlt), LineTable.count, List.getElem?_length] at hnone
    cases hnone
  · by_contra hlt
    have hnone := h.getElem?_starts_ofSource lines.length
    rw [if_neg (Nat.lt_irrefl _), List.getElem?_eq_none_iff] at hnone
    exact hlt hnone

/-- A line stops where the next one starts, or with the source, and this is behind its break. -/
theorem stop_eq (h : Lined source.bytes lines) (hline : lines[index]? = some line) :
    (LineTable.ofSource source).starts[index + 1]?.getD source.size
      = (Line.joined (lines.take index)).utf8ByteSize + line.whole.utf8ByteSize := by
  obtain ⟨hindex, rfl⟩ := List.getElem?_eq_some_iff.mp hline
  have htake : Line.joined (lines.take (index + 1))
      = Line.joined (lines.take index) ++ lines[index].whole := by
    rw [List.take_succ_eq_append_getElem hindex, Line.joined_append]
    simp [Line.joined]
  rw [← String.utf8ByteSize_append, ← htake, h.getElem?_starts_ofSource]
  split
  · rfl
  · next hlast =>
      rw [List.take_of_length_le (Nat.le_of_not_lt hlast), ← h.text_eq]
      rfl

/-- What stands between the starts of two lines is the first of them with its break. -/
theorem textBetween?_eq (h : Lined source.bytes lines) (hline : lines[index]? = some line) :
    source.textBetween? (Line.joined (lines.take index)).utf8ByteSize
      ((LineTable.ofSource source).starts[index + 1]?.getD source.size) = some line.whole := by
  rw [h.stop_eq hline]
  exact (h.holds hline).textBetween?_eq

end Lined

/-! ### What is left out at the end of a line -/

/-- Where all of `behind` may be dropped and nothing of `front`, what stays is `front`. Dropping
goes on as long as it may, so that both conditions are needed. -/
theorem Text.dropEnd_append_of_forall {drop : Char → Bool} {front behind : String}
    (hfront : ∀ c ∈ front.toList, drop c = false) (hbehind : ∀ c ∈ behind.toList, drop c = true) :
    dropEnd drop (front ++ behind) = front := by
  have hkept : front.toList.reverse.dropWhile drop = front.toList.reverse := by
    cases hchars : front.toList.reverse with
    | nil => rfl
    | cons c chars =>
        have hmem : c ∈ front.toList.reverse := hchars ▸ List.mem_cons_self
        exact List.dropWhile_cons_of_neg (by simp [hfront c (List.mem_reverse.mp hmem)])
  have hdropped : ∀ c ∈ behind.toList.reverse, drop c = true := by
    intro c hc
    exact hbehind c (List.mem_reverse.mp hc)
  rw [dropEnd, String.toList_append, List.reverse_append,
    List.dropWhile_append_of_pos hdropped, hkept, List.reverse_reverse, String.ofList_toList]

/-- Where no byte of a text is part of a line break, no character is. -/
theorem Text.isLineBreak_of_bytes {text : String}
    (h : ∀ b ∈ bytes text, Byte.isLineBreak b = false) :
    ∀ c ∈ text.toList, isLineBreak c = false := by
  intro c hc
  rw [Bool.eq_false_iff]
  intro hbreak
  have hmem : ∀ b ∈ String.utf8EncodeChar c, Byte.isLineBreak b = false := by
    intro b hb
    refine h b ?_
    rw [bytes_eq_flatMap]
    exact List.mem_flatMap.mpr ⟨c, hc, hb⟩
  simp only [isLineBreak, Bool.or_eq_true, beq_iff_eq] at hbreak
  rcases hbreak with rfl | rfl
  · cases hmem Byte.lineFeed (by decide)
  · cases hmem Byte.carriageReturn (by decide)

/-- The text of a line is what is left of it without line breaks at its end. No more than its own
break is dropped, since its text holds none. -/
theorem Lined.dropEnd_whole {bytes : List UInt8} {lines : List Line} {line : Line}
    (h : Lined bytes lines) (hline : line ∈ lines) :
    Text.dropEnd Text.isLineBreak line.whole = line.text := by
  have hending : line.ending.toList.all Text.isLineBreak = true := by
    obtain ⟨front, last, rfl, hlast, hfront⟩ := h.endings
    rcases List.mem_append.mp hline with hmem | hmem
    · have hbreak := hfront line hmem
      simp only [List.mem_cons, List.not_mem_nil, or_false] at hbreak
      rcases hbreak with hbreak | hbreak | hbreak <;> rw [hbreak] <;> rfl
    · obtain rfl := List.mem_singleton.mp hmem
      rw [hlast]
      rfl
  exact Text.dropEnd_append_of_forall
    (Text.isLineBreak_of_bytes (h.isLineBreak_eq_false line hline)) (List.all_eq_true.mp hending)

/-! ### The lines of a session -/

/-- A session cuts its source into lines. The lines that it has texts of are `lines`, one for each
start in its table, and the source is put together again from them and their breaks. -/
structure Splits (s : Session) (lines : List Line) : Prop where
  /-- The first line starts with the source, and each line starts behind the one before. -/
  starts_head : s.lines.starts.head? = some 0
  increasing : s.lines.starts.Pairwise (· < ·)
  bounded : ∀ start ∈ s.lines.starts, start ≤ s.source.size
  /-- There is one line more than there are line breaks. -/
  count_eq : s.lines.count = (lineBreaks 0 s.source.bytes).length + 1
  length_eq : lines.length = s.lines.count
  /-- The lines that the session has a text of are those with a number up to their count. -/
  isSome_iff : ∀ number,
    (s.lineText? number).isSome = true ↔ 1 ≤ number ∧ number ≤ s.lines.count
  lineText?_eq : ∀ index, s.lineText? (index + 1) = lines[index]?.map Line.text
  /-- No text of a line holds a character of a line break. -/
  text_plain : ∀ line ∈ lines, '\n' ∉ line.text.toList ∧ '\r' ∉ line.text.toList
  /-- Each line has a line break behind it, but for the last one, which has none. -/
  endings : ∃ front last, lines = front ++ [last] ∧ last.ending = "" ∧
    ∀ line ∈ front, line.ending ∈ ["\r\n", "\n", "\r"]
  /-- The texts of the lines with their line breaks make up the source. -/
  text_eq : s.source.text = String.join (lines.map fun line => line.text ++ line.ending)
  /-- Between the start of a line and the next one stand whole characters, and these are the text
  of the line and its line break. -/
  textBetween?_eq : ∀ index start, s.lines.starts[index]? = some start →
    s.source.textBetween? start (s.lines.starts[index + 1]?.getD s.source.size)
      = lines[index]?.map fun line => line.text ++ line.ending

namespace Lined

variable {source : Source} {lines : List Line}

/-- The texts that the table finds are those of the lines, under their numbers. There is none
under a number that no line has. -/
theorem lineText?_eq (h : Lined source.bytes lines) (index : Nat) :
    (LineTable.ofSource source).lineText? source (index + 1) = lines[index]?.map Line.text := by
  have hstart := h.getElem?_starts_ofSource index
  cases hline : lines[index]? with
  | none =>
      rw [List.getElem?_eq_none_iff] at hline
      rw [if_neg (Nat.not_lt.mpr hline), List.getElem?_eq_none_iff] at hstart
      rw [LineTable.lineText?, List.drop_of_length_le hstart]
      rfl
  | some line =>
      rw [if_pos (List.getElem?_eq_some_iff.mp hline).1] at hstart
      rw [LineTable.lineText?_of_textBetween? hstart rfl (h.textBetween?_eq hline),
        h.dropEnd_whole (List.mem_of_getElem? hline)]
      rfl

/-- The lines that a source is cut into are those that its session cuts it into. Each field is a
fact about `Lined`, with the table in place of the cuts. -/
theorem splits (h : Lined source.bytes lines) : Splits (Session.ofSource source) lines where
  starts_head := rfl
  increasing := LineTable.pairwise_starts_ofSource source
  bounded := by
    intro start hstart
    exact LineTable.le_size_of_mem_starts source hstart
  count_eq := LineTable.count_ofSource source
  length_eq := h.length_eq
  isSome_iff := by
    intro number
    show ((LineTable.ofSource source).lineText? source number).isSome = true ↔
      1 ≤ number ∧ number ≤ (LineTable.ofSource source).count
    cases number with
    | zero => simp [LineTable.lineText?]
    | succ index =>
        rw [h.lineText?_eq, Option.isSome_map, ← h.length_eq, isSome_getElem?]
        omega
  lineText?_eq := h.lineText?_eq
  text_plain := by
    intro line hline
    have hplain := Text.isLineBreak_of_bytes (h.isLineBreak_eq_false line hline)
    constructor
    · intro hmem
      cases hplain '\n' hmem
    · intro hmem
      cases hplain '\r' hmem
  endings := h.endings
  text_eq := h.text_eq
  textBetween?_eq := by
    intro index start hstart
    obtain ⟨hindex, -⟩ := List.getElem?_eq_some_iff.mp hstart
    have hlt : index < lines.length := by
      rw [h.length_eq]
      exact hindex
    have hfound := h.getElem?_starts_ofSource index
    rw [if_pos hlt] at hfound
    obtain rfl := Option.some.inj (hstart.symm.trans hfound)
    rw [List.getElem?_eq_getElem hlt]
    exact h.textBetween?_eq (List.getElem?_eq_getElem hlt)

end Lined

/-- The session of a source cuts it into lines, so that nothing is lost but the line breaks, and
of these each line loses its own and no other. This holds for every source, with any mixture of
line breaks. -/
theorem splits_ofSource (source : Source) : ∃ lines, Splits (Session.ofSource source) lines := by
  obtain ⟨lines, h⟩ := exists_lined source.encoded_bytes
  exact ⟨lines, h.splits⟩

end Lexis
