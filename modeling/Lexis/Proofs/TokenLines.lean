import Lexis.Proofs.LineEndings
import Lexis.Proofs.TokenPositions
import Lexis.Proofs.Trivia

/-!
# `Lexis.Proofs.TokenLines`: tokens and the lines of a session

A lexer ends line comments and quoted literals at a line feed and nowhere else. For a session a
line ends with a carriage return as well, unless a line feed is behind it. So a token that is no
block comment holds no line feed, but it may go on over some lines of the session, and how many is
counted by the carriage returns in it. The theorems:

* `LineTable.index_eq_countP`: the line of an offset is counted by the bytes in front of it that
  end a line.
* `Source.index_stop_eq_add_loneReturns`: so the lines within a span without a line feed are counted
  by its carriage returns, those in front of a line feed left out.
* `Lexeme.EndsBefore.isBlank_eq_false_or`: only comments and quoted literals hold blanks.
* `drains_spansLines`: the lines that the tokens of a run go over.
-/

set_option autoImplicit false

namespace Lexis

/-! ### Lines in front of an offset -/

namespace LineTable

/-- Whether a line ends with the byte at an offset. Behind the last byte none does. -/
def endsLineAt (bytes : List UInt8) (offset : Nat) : Bool :=
  match bytes.drop offset with
  | [] => false
  | b :: rest => endsLine b rest

/-- The lines that start at most `n` bytes behind the first of some bytes are counted by those of
the `n` bytes that end a line, since each line starts right behind such a byte. -/
theorem countP_lineStartsFrom (bytes : List UInt8) (offset n : Nat) :
    (lineStartsFrom [] offset bytes).countP (· ≤ offset + n)
      = (List.range n).countP (endsLineAt bytes) := by
  induction bytes generalizing offset n with
  | nil =>
      have hnone : (List.range n).countP (endsLineAt []) = 0 := by
        rw [List.countP_eq_zero]
        intro i _
        simp [endsLineAt]
      rw [hnone]
      rfl
  | cons b rest ih =>
      cases n with
      | zero =>
          -- Lines start behind the bytes that end one.
          rw [List.range_zero, List.countP_nil, List.countP_eq_zero]
          intro start hstart
          obtain ⟨front, _, _, -, -, rfl⟩ := mem_lineStartsFrom_iff.mp hstart
          simp only [decide_eq_true_eq]
          omega
      | succ n =>
          have hlater := ih (offset + 1) n
          rw [show offset + 1 + n = offset + (n + 1) by omega] at hlater
          rw [List.range_succ_eq_map, List.countP_cons, List.countP_map]
          show _ = (List.range n).countP (endsLineAt rest) + if endsLine b rest = true then 1 else 0
          rw [← hlater]
          cases hends : endsLine b rest with
          | true =>
              rw [lineStartsFrom_of_endsLine hends, List.countP_cons]
              simp
          | false =>
              rw [lineStartsFrom_of_not_endsLine hends]
              rfl

variable (source : Source)

/-- The line of an offset is counted by the bytes in front of it that end a line. So it can be
counted over any part of the source, and the counts of two parts add up. -/
theorem index_eq_countP (offset : Nat) :
    (ofSource source).index offset = (List.range offset).countP (endsLineAt source.bytes) := by
  rw [index_ofSource, ← countP_lineStartsFrom source.bytes 0 offset, lineStartsFrom_eq_map_stop,
    List.countP_map, Nat.zero_add]
  rfl

/-- The line behind a span is the line that it starts on, and as many more as bytes of the span
end a line. -/
theorem index_stop_eq_add_countP (span : Span) :
    (ofSource source).index span.stop = (ofSource source).index span.start
      + (List.range' span.start span.length).countP (endsLineAt source.bytes) := by
  rw [index_eq_countP, index_eq_countP, ← List.countP_append, List.range_eq_range',
    List.range_eq_range', Span.stop, ← List.range'_append_1, Nat.zero_add]

end LineTable

namespace Source

variable {source : Source} {span : Span}

/-- Whether the byte at an offset is a carriage return without a line feed behind it. -/
def isLoneReturn (source : Source) (offset : Nat) : Bool :=
  source.bytes[offset]? == some Byte.carriageReturn
    && source.bytes[offset + 1]? != some Byte.lineFeed

/-- How many of the bytes of a span are carriage returns without a line feed behind them. What
follows the last byte of the span counts. -/
def loneReturns (source : Source) (span : Span) : Nat :=
  (List.range' span.start span.length).countP source.isLoneReturn

/-- A byte at an offset within a span is one of those that the span covers. -/
theorem mem_slice_of_getElem? {offset : Nat} {b : UInt8} (hb : source.bytes[offset]? = some b)
    (hle : span.start ≤ offset) (hlt : offset < span.stop) :
    b ∈ source.slice span.start span.stop := by
  refine List.mem_iff_getElem?.mpr ⟨offset - span.start, ?_⟩
  rw [slice, List.getElem?_take_of_lt (by omega), List.getElem?_drop,
    Nat.add_sub_cancel' hle, hb]

/-- Where no line feed is, only a lone carriage return ends a line. Whether it is alone is seen
from the byte behind it. -/
theorem endsLineAt_eq_isLoneReturn {offset : Nat}
    (h : source.bytes[offset]? ≠ some Byte.lineFeed) :
    LineTable.endsLineAt source.bytes offset = source.isLoneReturn offset := by
  have hnext : source.bytes[offset + 1]? = (source.bytes.drop offset).tail.head? := by
    rw [List.tail_drop, List.head?_drop]
  rw [isLoneReturn, hnext]
  rw [← List.head?_drop] at h ⊢
  rw [LineTable.endsLineAt]
  cases hdrop : source.bytes.drop offset with
  | nil => rfl
  | cons b rest =>
      rw [hdrop, List.head?_cons, ne_eq, Option.some.injEq] at h
      simp [LineTable.endsLine, h]

/-- Over a span without a line feed, the lines are counted by the lone carriage returns. A line
feed right behind the span takes the break of a carriage return at its end. -/
theorem index_stop_eq_add_loneReturns
    (h : Byte.lineFeed ∉ source.slice span.start span.stop) :
    (LineTable.ofSource source).index span.stop
      = (LineTable.ofSource source).index span.start + source.loneReturns span := by
  rw [LineTable.index_stop_eq_add_countP, loneReturns]
  congr 1
  refine List.countP_congr ?_
  intro i hi
  obtain ⟨hle, hlt⟩ := List.mem_range'_1.mp hi
  have hbyte : source.bytes[i]? ≠ some Byte.lineFeed := by
    intro hfeed
    exact h (mem_slice_of_getElem? hfeed hle hlt)
  rw [endsLineAt_eq_isLoneReturn hbyte]

/-- Lone carriage returns are bytes of the span, so that a span with one covers a carriage return.
-/
theorem mem_slice_of_loneReturns (h : source.loneReturns span ≠ 0) :
    Byte.carriageReturn ∈ source.slice span.start span.stop := by
  rw [loneReturns, ← Nat.pos_iff_ne_zero, List.countP_pos_iff] at h
  obtain ⟨i, hi, hreturn⟩ := h
  obtain ⟨hle, hlt⟩ := List.mem_range'_1.mp hi
  rw [isLoneReturn, Bool.and_eq_true, beq_iff_eq] at hreturn
  exact mem_slice_of_getElem? hreturn.1 hle hlt

end Source

/-! ### What tokens cover -/

namespace Lexeme

/-- No byte of a word is a blank. -/
theorem isBlank_of_continuesWord : ∀ {b : UInt8}, Byte.continuesWord b = true →
    Byte.isBlank b = false := by
  rintro ⟨b⟩
  revert b
  decide

/-- No byte of a number is a blank. -/
theorem isBlank_of_continuesNumber : ∀ {b : UInt8}, Byte.continuesNumber b = true →
    Byte.isBlank b = false := by
  rintro ⟨b⟩
  revert b
  decide

/-- Only comments and quoted literals hold blanks. A byte that stands alone is none, since blanks
are skipped. -/
theorem EndsBefore.isBlank_eq_false_or {comments : Bool} {lexeme : Lexeme} {rest : List UInt8}
    (h : EndsBefore comments lexeme rest) :
    (∀ b ∈ lexeme.spelling, Byte.isBlank b = false) ∨ lexeme.isComment = true ∨
      ∃ quote value isTerminated, lexeme = .quoted quote value isTerminated := by
  cases h with
  | word hb hrun =>
      refine .inl ?_
      intro c hc
      rcases List.mem_cons.mp hc with rfl | hc
      · exact isBlank_of_startsWord hb
      · exact isBlank_of_continuesWord (hrun.within c hc)
  | number hb hrun =>
      refine .inl ?_
      intro c hc
      rcases List.mem_cons.mp hc with rfl | hc
      · exact isBlank_of_isDigit hb
      · exact isBlank_of_continuesNumber (hrun.within c hc)
  | terminated => exact .inr (.inr ⟨_, _, _, rfl⟩)
  | unterminated => exact .inr (.inr ⟨_, _, _, rfl⟩)
  | lineComment => exact .inr (.inl rfl)
  | closedComment => exact .inr (.inl rfl)
  | openComment => exact .inr (.inl rfl)
  | single halone =>
      refine .inl ?_
      intro c hc
      rw [List.mem_singleton.mp hc]
      exact halone.blank

/-- What a token covers is a part of the spelling of its lexeme, whether or not its span takes the
quotes in. -/
theorem mem_spelling_of_mem_slice {source : Source} {config : Config} {lexeme : Lexeme}
    {front rest : List UInt8} {t : Token} {b : UInt8}
    (hbytes : source.bytes = front ++ (lexeme.spelling ++ rest))
    (htoken : (lexeme.readAt config front.length).token = some t)
    (hb : b ∈ source.slice t.span.start t.span.stop) : b ∈ lexeme.spelling := by
  obtain rfl := eq_of_token htoken
  have hcovered := lexeme.covered_le_width config
  have hfirst : (lexeme.covered config).1 ≤ lexeme.spelling.length := by
    rw [width] at hcovered
    omega
  have hlast : (lexeme.covered config).2
      ≤ (lexeme.spelling.drop (lexeme.covered config).1).length := by
    rw [List.length_drop]
    rw [width] at hcovered
    omega
  rw [Source.slice, hbytes, ← List.drop_drop, List.drop_left, Span.stop, Nat.add_sub_cancel_left,
    List.drop_append_of_le_length hfirst, List.take_append_of_le_length hlast] at hb
  exact List.mem_of_mem_drop (List.mem_of_mem_take hb)

end Lexeme

/-- The line of an offset in the source is that of an empty span there, the end of the source
included. -/
theorem Span.resolve_offset {source : Source} {offset : Nat} (h : offset ≤ source.size) :
    (Session.ofSource source).resolve ⟨offset, 0⟩
      = .ok (.ok (Span.location source none ⟨offset, 0⟩)) := by
  refine (Span.fullyResolves_location ?_).resolve_eq
  exact h

/-- How many lines of a session a token goes over. -/
structure Token.SpansLines (source : Source) (t : Token) : Prop where
  /-- It covers no line feed. -/
  lineFeed_not_mem : Byte.lineFeed ∉ source.slice t.span.start t.span.stop
  /-- The session has it end as many lines further on as it covers lone carriage returns. -/
  line_stop : ∃ first last,
    (Session.ofSource source).resolve ⟨t.span.start, 0⟩ = .ok (.ok first) ∧
    (Session.ofSource source).resolve ⟨t.span.stop, 0⟩ = .ok (.ok last) ∧
    last.line = first.line + source.loneReturns t.span
  /-- If there are any, it is a line comment or a quoted literal. -/
  of_loneReturns : source.loneReturns t.span ≠ 0 → t.kind = .lineComment ∨
    ∃ quote value isTerminated, t.payload = .literal (.quoted quote value isTerminated)

/-- The token of a lexeme that is no block comment, with the lexeme in its place in the source.
Its bytes are among those of the lexeme, and which of these may be line feeds or carriage returns
is known from what the lexeme is. -/
theorem Token.SpansLines.of_endsBefore {source : Source} {config : Config} {lexeme : Lexeme}
    {front rest : List UInt8} {t : Token}
    (hends : Lexeme.EndsBefore config.comments lexeme rest)
    (hbytes : source.bytes = front ++ (lexeme.spelling ++ rest))
    (htoken : (lexeme.readAt config front.length).token = some t)
    (hstop : t.span.stop ≤ source.size) (hblock : lexeme.isBlockComment = false) :
    t.SpansLines source := by
  have hfeed : Byte.lineFeed ∉ source.slice t.span.start t.span.stop := by
    intro hmem
    exact hends.lineFeed_not_mem hblock (Lexeme.mem_spelling_of_mem_slice hbytes htoken hmem)
  refine ⟨hfeed, ?_, ?_⟩
  · have hstart : t.span.start ≤ source.size := Nat.le_trans (Nat.le_add_right _ _) hstop
    refine ⟨_, _, Span.resolve_offset hstart, Span.resolve_offset hstop, ?_⟩
    show (LineTable.ofSource source).index t.span.stop + 1
      = (LineTable.ofSource source).index t.span.start + 1 + source.loneReturns t.span
    rw [Source.index_stop_eq_add_loneReturns hfeed, Nat.add_right_comm]
  · intro hreturns
    have hmem := Lexeme.mem_spelling_of_mem_slice hbytes htoken
      (Source.mem_slice_of_loneReturns hreturns)
    obtain rfl := Lexeme.eq_of_token htoken
    rcases hends.isBlank_eq_false_or with hnone | hcomment | ⟨quote, value, isTerminated, rfl⟩
    · -- A carriage return is a blank.
      cases hnone _ hmem
    · cases lexeme with
      | lineComment isDoc content => exact .inl rfl
      | blockComment => cases hblock
      | _ => cases hcomment
    · exact .inr ⟨quote, _, isTerminated, rfl⟩

/-- No token but a block comment covers a line feed. How many lines further on than it starts a
token ends in the session of its source is how many carriage returns it covers that have no line
feed behind them. There are such in line comments and quoted literals only. -/
theorem drains_spansLines (source : Source) (config : Config) :
    ∃ tokens problems, Lexer.Drains source config tokens problems ∧
      ∀ t ∈ tokens, t.kind ≠ .blockComment → t.SpansLines source := by
  refine ⟨_, _, Lexer.drains_readings source config, ?_⟩
  intro t ht hkind
  have hstop := stop_le_of_mem_tokens ht
  obtain ⟨front, lexeme, rest, hbytes, hends, htoken⟩ := Lexeme.exists_of_mem_tokens ht
  refine .of_endsBefore hends hbytes htoken hstop ?_
  obtain rfl := Lexeme.eq_of_token htoken
  cases lexeme with
  | blockComment => exact absurd rfl hkind
  | _ => rfl

/-- The first carriage return ends a line of the session, and the second leaves it to the line feed
behind the comment. -/
example : Source.loneReturns ⟨"// a\rb\r\nc", _, rfl, by decide⟩ ⟨0, 7⟩ = 1 := by decide

end Lexis
