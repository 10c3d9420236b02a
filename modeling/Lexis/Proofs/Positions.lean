import Lexis.Location
import Lexis.Proofs.Fidelity
import Lexis.Proofs.LineBreaks

/-!
# `Lexis.Proofs.Positions`: lines and columns stand for offsets

With the line table of its source, a span resolves to the line and the column where it
starts. Nothing is lost on the way: the offset can be computed from the two, and positions
are in the order of the offsets. The theorems:

* `Span.resolve_of_le`: a span that starts in the source resolves, and `Span.location` is what
  it resolves to.
* `Location.Locates.lt_iff_before`: positions are in the order of their offsets.
* `Source.holds_decode_slice`: between characters, bytes decode to the text that stands there.
* `resolve_ofSource`: resolving is an order isomorphism.
-/

set_option autoImplicit false

namespace Lexis

open Text (Encoded)

/-! ### Positions -/

namespace Location

/-- The position comes first: it is on an earlier line, or in an earlier column of the line. -/
def Before (a b : Location) : Prop := a.line < b.line ∨ a.line = b.line ∧ a.column < b.column

/-- The line and the column are those of an offset into the source. The line is counted by the
line breaks that end at or before the offset. The table has the start of the line, to which the
column is counted from one, and the next line starts behind the offset. -/
structure Locates (source : Source) (offset : Nat) (location : Location) : Prop where
  line_eq : location.line
    = 1 + (lineBreaks 0 source.bytes).countP fun lineBreak => lineBreak.stop ≤ offset
  line_pos : 1 ≤ location.line
  line_le : location.line ≤ (LineTable.ofSource source).count
  column_pos : 1 ≤ location.column
  column_eq : ∃ start, (LineTable.ofSource source).starts[location.line - 1]? = some start ∧
    start + (location.column - 1) = offset
  lt_next : ∀ next, (LineTable.ofSource source).starts[location.line]? = some next → offset < next

namespace Locates

variable {source : Source} {i j : Nat} {a b : Location}

/-- An offset can be computed from its line and its column: it is the start of the line in the
table, and the column counted from there. -/
theorem eq_of_eq (ha : Locates source i a) (hb : Locates source j b) (hline : a.line = b.line)
    (hcolumn : a.column = b.column) : i = j := by
  obtain ⟨start, hstart, hi⟩ := ha.column_eq
  obtain ⟨start', hstart', hj⟩ := hb.column_eq
  rw [hline, hstart', Option.some.injEq] at hstart
  omega

/-- A later offset is at a later position. As many line breaks end at or before it, or more, and
on the same line the columns are counted from the same start. -/
theorem before_of_lt (ha : Locates source i a) (hb : Locates source j b) (h : i < j) :
    a.Before b := by
  -- What ends at or before the first offset ends at or before the second.
  have hle : a.line ≤ b.line := by
    rw [ha.line_eq, hb.line_eq]
    refine Nat.add_le_add_left (List.countP_mono_left ?_) 1
    intro lineBreak _ hstop
    simp only [decide_eq_true_eq] at hstop ⊢
    omega
  rcases Nat.lt_or_eq_of_le hle with hlt | hline
  · exact .inl hlt
  · obtain ⟨start, hstart, hi⟩ := ha.column_eq
    obtain ⟨start', hstart', hj⟩ := hb.column_eq
    rw [hline, hstart', Option.some.injEq] at hstart
    have hpos := ha.column_pos
    refine .inr ⟨hline, ?_⟩
    omega

/-- Positions are in the order of their offsets. One offset has one position, so that the order of
positions tells the order of offsets. -/
theorem lt_iff_before (ha : Locates source i a) (hb : Locates source j b) :
    i < j ↔ a.Before b := by
  refine ⟨before_of_lt ha hb, ?_⟩
  intro hbefore
  rcases Nat.lt_trichotomy i j with hlt | rfl | hlt
  · exact hlt
  · -- One offset has one position.
    obtain ⟨start, hstart, hi⟩ := ha.column_eq
    obtain ⟨start', hstart', hj⟩ := hb.column_eq
    have hline : a.line = b.line := ha.line_eq.trans hb.line_eq.symm
    rw [hline, hstart', Option.some.injEq] at hstart
    have hpos := ha.column_pos
    have hpos' := hb.column_pos
    rcases hbefore with hbefore | hbefore <;> omega
  · rcases before_of_lt hb ha hlt with hback | hback <;> rcases hbefore with hforth | hforth <;>
      omega

end Locates

end Location

/-! ### Resolving -/

/-- Bytes between two ends that cut no character decode to the text that stands there. The text up
to the second end begins with the text up to the first one, and what is left is encoded as well. -/
theorem Source.holds_decode_slice {source : Source} {start stop : Nat} (hle : start ≤ stop)
    (hstart : (⟨start⟩ : String.Pos.Raw).IsValid source.text)
    (hstop : (⟨stop⟩ : String.Pos.Raw).IsValid source.text) :
    source.Holds ⟨start, stop - start⟩ (Text.decode (source.slice start stop)) := by
  obtain ⟨front, behind, htext, hfront⟩ := String.Pos.Raw.isValid_iff_exists_append.mp hstart
  obtain ⟨front', behind', htext', hfront'⟩ := String.Pos.Raw.isValid_iff_exists_append.mp hstop
  obtain rfl : start = (Text.bytes front).length := by
    rw [Text.length_bytes]
    exact congrArg String.Pos.Raw.byteIdx hfront
  obtain rfl : stop = (Text.bytes front').length := by
    rw [Text.length_bytes]
    exact congrArg String.Pos.Raw.byteIdx hfront'
  have hbytes : source.bytes = Text.bytes front ++ Text.bytes behind := by
    rw [source.bytes_eq, htext, Text.bytes_append]
  have hbytes' : source.bytes = Text.bytes front' ++ Text.bytes behind' := by
    rw [source.bytes_eq, htext', Text.bytes_append]
  -- The text up to the start is what the text up to the stop begins with.
  obtain ⟨part, hpart⟩ : Text.bytes front <+: Text.bytes front' :=
    List.prefix_of_prefix_length_le ⟨_, hbytes.symm⟩ ⟨_, hbytes'.symm⟩ hle
  have hencoded : Encoded part :=
    (Text.encoded_bytes front).of_append (hpart ▸ Text.encoded_bytes front')
  obtain ⟨text, rfl⟩ := hencoded
  rw [← hpart, List.append_assoc] at hbytes'
  have hholds := Source.Holds.of_bytes hbytes' (Text.encoded_bytes front)
    (Text.encoded_bytes behind')
  have hslice := hholds.slice_eq
  rw [Span.stop, ← List.length_append, hpart] at hslice
  rw [hslice, Text.decode_bytes]
  have hlength : (Text.bytes front').length - (Text.bytes front).length
      = (Text.bytes text).length := by
    rw [← hpart, List.length_append, Nat.add_sub_cancel_left]
  rw [hlength]
  exact hholds

namespace Span

/-- What a span resolves to that starts in the source. -/
def location (source : Source) (name : Option String) (span : Span) : Location :=
  let table := LineTable.ofSource source
  { excerpt := Text.decode (source.slice span.start span.stop)
    line := table.index span.start + 1
    column := span.start - table.startAt (table.index span.start) + 1
    byteLength := span.length
    name := name }

variable {source : Source} {name : Option String} {span : Span}

/-- A span that starts past the end of the source is a problem, however long it is. -/
theorem resolve_of_lt (h : source.size < span.start) :
    span.resolve source (LineTable.ofSource source) name
      = .ok (.error ⟨.spanOutOfBounds span.start source.size, span⟩) := by
  rw [resolve, if_pos h]
  rfl

/-- A span that starts in the source resolves, since no line starts behind its own offsets. Its
end may lie past the end of the source, but it has to be addressable (`hstop`). -/
theorem resolve_of_le (h : span.start ≤ source.size) (hstop : span.stop < addressLimit) :
    span.resolve source (LineTable.ofSource source) name
      = .ok (.ok (span.location source name)) := by
  obtain ⟨start, -, hstart, hle, -⟩ := LineTable.exists_start source span.start
  rw [resolve, if_neg (Nat.not_lt.mpr h), Fault.offsetAfter_eq_ok hstop]
  show (if span.start < LineTable.startAt _ _ then _ else _) = _
  rw [if_neg (by rw [hstart]; exact Nat.not_lt.mpr hle)]
  rfl

/-- A span whose end is not addressable faults, if it starts in the source. The spans that a lexer
makes all end within the source. -/
theorem resolve_of_limit_le (h : span.start ≤ source.size) (hstop : addressLimit ≤ span.stop) :
    span.resolve source (LineTable.ofSource source) name
      = .error (.unaddressable span.start span.length) := by
  rw [resolve, if_neg (Nat.not_lt.mpr h), Fault.offsetAfter_eq_error hstop]
  rfl

/-- What resolved starts in the source, and is `Span.location`. So nothing more needs to be known
of how resolving goes. -/
theorem eq_of_resolve {location : Location}
    (h : span.resolve source (LineTable.ofSource source) name = .ok (.ok location)) :
    span.start ≤ source.size ∧ location = span.location source name := by
  by_cases hle : span.start ≤ source.size
  · refine ⟨hle, ?_⟩
    by_cases hstop : span.stop < addressLimit
    · rw [resolve_of_le hle hstop] at h
      exact (Except.ok.inj (Except.ok.inj h)).symm
    · rw [resolve_of_limit_le hle (Nat.not_lt.mp hstop)] at h
      cases h
  · rw [resolve_of_lt (Nat.not_le.mp hle)] at h
    cases Except.ok.inj h

/-- The line and the column that a span resolves to are those of its start. The line comes from a
search in the table, and the table is in order and has a line for each line break. -/
theorem locates_location (source : Source) (name : Option String) (span : Span) :
    (span.location source name).Locates source span.start := by
  obtain ⟨start, hget, hstart, hle, hnext⟩ := LineTable.exists_start source span.start
  have hcolumn : (span.location source name).column = span.start - start + 1 := by
    rw [← hstart]
    rfl
  constructor
  · show (LineTable.ofSource source).index span.start + 1 = _
    rw [LineTable.index_ofSource, Nat.add_comm]
  · exact Nat.succ_pos _
  · exact (List.getElem?_eq_some_iff.mp hget).1
  · rw [hcolumn]
    exact Nat.succ_pos _
  · refine ⟨start, hget, ?_⟩
    rw [hcolumn]
    omega
  · exact hnext

end Span

/-- What a span resolves to shows the bytes of the source from its start up to its stop, or to
the end of the source if that comes first. If no end cuts a character then they are shown as
they are. The length stays what it was. -/
structure Location.Shows (source : Source) (name : Option String) (span : Span)
    (location : Location) : Prop where
  excerpt_eq : location.excerpt
    = Text.decode (source.slice span.start (min span.stop source.size))
  excerpt_holds : (⟨span.start⟩ : String.Pos.Raw).IsValid source.text →
    (⟨min span.stop source.size⟩ : String.Pos.Raw).IsValid source.text →
      source.Holds ⟨span.start, min span.stop source.size - span.start⟩ location.excerpt
  byteLength_eq : location.byteLength = span.length
  name_eq : location.name = name

/-- Nothing stands behind the end of a source, so that the part of a span behind it adds no bytes.
-/
theorem Source.slice_min_size (source : Source) (start stop : Nat) :
    source.slice start (min stop source.size) = source.slice start stop := by
  rw [slice, slice, List.take_eq_take_iff, List.length_drop, source.length_bytes]
  omega

/-- A span that starts in the source resolves to what it covers there. Where its ends are between
characters, the excerpt is the text of the source between them. -/
theorem Span.shows_location {source : Source} (name : Option String) {span : Span}
    (h : span.start ≤ source.size) : (span.location source name).Shows source name span := by
  have hexcerpt : (span.location source name).excerpt
      = Text.decode (source.slice span.start (min span.stop source.size)) := by
    rw [Source.slice_min_size]
    rfl
  have hle : span.start ≤ min span.stop source.size := by
    simp only [Span.stop]
    omega
  refine ⟨hexcerpt, ?_, rfl, rfl⟩
  intro hstart hstop
  rw [hexcerpt]
  exact Source.holds_decode_slice hle hstart hstop

/-- Resolving takes the offsets of a source to lines and columns, and keeps their order. Only a
span that starts past the end of the source is a problem. The first part is about each span alone,
the second about any two that resolve: their offsets are ordered as their positions, and no two
offsets have one position. -/
theorem resolve_ofSource (source : Source) (name : Option String) :
    (∀ span : Span, span.stop < addressLimit →
      (∀ problem, span.resolve source (LineTable.ofSource source) name = .ok (.error problem) ↔
        source.size < span.start ∧
          problem = ⟨.spanOutOfBounds span.start source.size, span⟩) ∧
      (span.start ≤ source.size → ∃ location,
        span.resolve source (LineTable.ofSource source) name = .ok (.ok location) ∧
          location.Locates source span.start ∧ location.Shows source name span)) ∧
    (∀ (a b : Span) (locationA locationB : Location),
      a.resolve source (LineTable.ofSource source) name = .ok (.ok locationA) →
      b.resolve source (LineTable.ofSource source) name = .ok (.ok locationB) →
        (a.start < b.start ↔ locationA.Before locationB) ∧
        (locationA.line = locationB.line → locationA.column = locationB.column →
          a.start = b.start)) := by
  refine ⟨?_, ?_⟩
  · intro span hstop
    refine ⟨?_, ?_⟩
    · intro problem
      by_cases h : span.start ≤ source.size
      · rw [Span.resolve_of_le h hstop]
        simp [Nat.not_lt.mpr h]
      · rw [Span.resolve_of_lt (Nat.not_le.mp h)]
        simp [Nat.not_le.mp h, eq_comm]
    · intro h
      exact ⟨_, Span.resolve_of_le h hstop, Span.locates_location source name span,
        Span.shows_location name h⟩
  · intro a b locationA locationB ha hb
    obtain ⟨-, rfl⟩ := Span.eq_of_resolve ha
    obtain ⟨-, rfl⟩ := Span.eq_of_resolve hb
    have hlocates := a.locates_location source name
    have hlocates' := b.locates_location source name
    exact ⟨hlocates.lt_iff_before hlocates', hlocates.eq_of_eq hlocates'⟩

/-- A letter outside of ASCII on the second line, behind a line break of two bytes. -/
def accentBehindBreak : Source := ⟨"a\r\nbé", _, rfl, by decide⟩

/-- A span that goes past the end of the source resolves to its start on the second line, behind
the position of the first byte, and shows what there is. A span that starts past the end is a
problem. -/
theorem resolve_ofSource_pastEnd :
    ∃ location first,
      Span.resolve ⟨4, 100⟩ accentBehindBreak (LineTable.ofSource accentBehindBreak) none
        = .ok (.ok location) ∧
      Span.resolve ⟨0, 1⟩ accentBehindBreak (LineTable.ofSource accentBehindBreak) none
        = .ok (.ok first) ∧
      location.line = 2 ∧ location.column = 2 ∧ location.excerpt = "é" ∧
      location.byteLength = 100 ∧ first.Before location ∧
      Span.resolve ⟨7, 0⟩ accentBehindBreak (LineTable.ofSource accentBehindBreak) none
        = .ok (.error ⟨.spanOutOfBounds 7 6, ⟨7, 0⟩⟩) := by
  obtain ⟨hspan, horder⟩ := resolve_ofSource accentBehindBreak none
  obtain ⟨-, hlocation⟩ := hspan ⟨4, 100⟩ (by decide)
  obtain ⟨-, hfirst⟩ := hspan ⟨0, 1⟩ (by decide)
  obtain ⟨hproblem, -⟩ := hspan ⟨7, 0⟩ (by decide)
  obtain ⟨location, hresolve, hlocates, hshows⟩ := hlocation (by decide)
  obtain ⟨first, hresolve', -, -⟩ := hfirst (by decide)
  have hline : location.line = 2 := hlocates.line_eq.trans (by decide)
  have hcolumn : location.column = 2 := by
    obtain ⟨start, hstart, hsum⟩ := hlocates.column_eq
    rw [hline] at hstart
    obtain rfl : 3 = start := Option.some.inj hstart
    have hpos := hlocates.column_pos
    have hoffset : 3 + (location.column - 1) = 4 := hsum
    omega
  have hexcerpt : location.excerpt = "é" := hshows.excerpt_eq.trans (by decide)
  have hbefore : first.Before location := (horder _ _ _ _ hresolve' hresolve).1.mp (by decide)
  exact ⟨location, first, hresolve, hresolve', hline, hcolumn, hexcerpt, hshows.byteLength_eq,
    hbefore, (hproblem _).mpr ⟨by decide, rfl⟩⟩

end Lexis
