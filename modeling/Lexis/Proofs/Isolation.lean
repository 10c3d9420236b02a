import Lexis.Proofs.Appending

/-!
# `Lexis.Proofs.Isolation`: a token stands on its own text

A token with its delimiters says all about itself: cut it out of its source, and a lexer finds
the same token in the cut alone. What stood behind it was looked at, but the end of the source
is as good. The one exception is a byte outside of ASCII, which is no text. The theorems:

* `Lexeme.readings_spelling`: the spelling of a lexeme is read as that lexeme.
* `Lexeme.filter_problems_eq`: a run has a problem at the span of a token only if the two come
  of one lexeme.
* `drains_alone`: the token and the problems of the cut.
-/

set_option autoImplicit false

namespace Lexis

open Text (Encoded)

/-! ### At the start of a source -/

/-- The span of as many bytes at the start. -/
def Span.atStart (span : Span) : Span := { span with start := 0 }

/-- The token at the start of a source. -/
def Token.atStart (t : Token) : Token := { t with span := t.span.atStart }

/-- The problem at the start of a source. -/
def Problem.atStart (problem : Problem) : Problem := { problem with span := problem.span.atStart }

/-- The token is for one byte that is neither a token nor a character: it is a part of a
character outside of ASCII. -/
structure Token.IsFragment (source : Source) (t : Token) : Prop where
  kind_eq : t.kind = .unknown
  length_eq : t.span.length = 1
  not_ascii : ∃ b, source.bytes[t.span.start]? = some b ∧ 0x80 ≤ b

namespace Lexeme

variable {config : Config} {comments : Bool} {malformedNumber : MalformedNumber} {lexeme : Lexeme}
  {offset : Nat}

/-- Where spans take the quotes in, the token of a lexeme covers all of it, from its first byte to
its last. -/
theorem covered_delimited (comments : Bool) (malformedNumber : MalformedNumber)
    (lexeme : Lexeme) :
    lexeme.covered ⟨comments, malformedNumber, .delimited⟩ = (0, lexeme.width) := by
  cases lexeme with
  | _ => rfl

/-- A delimited token, at its place and at the start. The offset of a lexeme goes into its reading
only as a shift (`Lexeme.readAt_add`). -/
theorem token_readAt_zero {t : Token}
    (h : (lexeme.readAt ⟨comments, malformedNumber, .delimited⟩ offset).token = some t) :
    (lexeme.readAt ⟨comments, malformedNumber, .delimited⟩ 0).token = some t.atStart := by
  rw [← Nat.zero_add offset, readAt_add] at h
  obtain ⟨alone, halone, rfl⟩ := Option.map_eq_some_iff.mp h
  rw [halone, eq_of_token halone, covered_delimited]
  rfl

/-- The problem of a lexeme, at its place and at the start, for any choice of spans: a problem
covers the whole of its lexeme. -/
theorem problem_readAt_zero (config : Config) (offset : Nat) (lexeme : Lexeme) :
    (lexeme.readAt config 0).problem
      = (lexeme.readAt config offset).problem.map Problem.atStart := by
  rw [← Nat.zero_add offset, readAt_add]
  cases hproblem : (lexeme.readAt config 0).problem with
  | none => simp [Reading.shift, hproblem]
  | some problem =>
      have hspan := span_eq_of_problem hproblem
      obtain ⟨cause, span⟩ := problem
      obtain rfl : span = ⟨0, lexeme.width⟩ := hspan
      simp [Reading.shift, hproblem, Problem.atStart, Problem.shift, Span.atStart, Span.shift]

/-- The problems of a run over one lexeme alone: there is one if the lexeme has one where it
stands, and none otherwise. -/
theorem filterMap_problem_readAt_zero (config : Config) (offset : Nat) (lexeme : Lexeme) :
    [lexeme.readAt config 0].filterMap (·.problem)
      = (lexeme.readAt config offset).problem.toList.map Problem.atStart := by
  have hzero := problem_readAt_zero config offset lexeme
  cases hproblem : (lexeme.readAt config offset).problem with
  | none =>
      rw [hproblem] at hzero
      rw [List.filterMap_cons_none hzero]
      rfl
  | some problem =>
      rw [hproblem] at hzero
      rw [List.filterMap_cons_some hzero]
      rfl

/-- The spelling of a lexeme is read as that lexeme. A lexeme that ends before some bytes ends
where nothing follows (`EndsBefore.of_head?`), so that what stood behind it is not missed. -/
theorem readings_spelling {rest : List UInt8} (h : EndsBefore config.comments lexeme rest) :
    readings config 0 lexeme.spelling = [lexeme.readAt config 0] := by
  have halone : EndsBefore config.comments lexeme [] := h.of_head? nofun
  rw [← List.append_nil lexeme.spelling]
  cases htoken : (lexeme.readAt config 0).token with
  | none => exact readings_of_none halone htoken
  | some t => rw [readings_of_some halone htoken, readings_nil]

/-- Problems that start elsewhere are not at a span. Spans are compared as a whole, and their
starts are enough to tell them apart. -/
theorem filter_span_eq_nil {readings : List Reading} {span : Span}
    (h : ∀ reading ∈ readings, ∀ problem, reading.problem = some problem →
      problem.span.start ≠ span.start) :
    (readings.filterMap (·.problem)).filter (·.span = span) = [] := by
  rw [List.filter_eq_nil_iff]
  intro problem hproblem hspan
  obtain ⟨reading, hreading, hfound⟩ := List.mem_filterMap.mp hproblem
  exact h reading hreading problem hfound (congrArg Span.start (of_decide_eq_true hspan))

/-- The problems of a run at the span of a token are those of the reading that the token comes
from, and that is at most one. Problems of other readings start elsewhere, those in front of it
before the token and those behind it after. -/
theorem filter_problems_eq {bytes : List UInt8} {front later : List Reading} {p : Placed}
    {t : Token} (h : readings config offset bytes = front ++ p.reading config :: later)
    (htoken : (p.reading config).token = some t) :
    ((readings config offset bytes).filterMap (·.problem)).filter (·.span = t.span)
      = (p.reading config).problem.toList := by
  have hpair := pairwise_readings_span config offset bytes
  rw [h, List.pairwise_append, List.pairwise_cons] at hpair
  obtain ⟨-, ⟨hlater, -⟩, hfront⟩ := hpair
  -- The problems of earlier readings start before the token, and those of later ones behind.
  have hbefore : (front.filterMap (·.problem)).filter (·.span = t.span) = [] := by
    refine filter_span_eq_nil ?_
    intro reading hreading problem hproblem
    have hlt := (hfront reading hreading _ List.mem_cons_self t problem).2 hproblem htoken
    exact Nat.ne_of_lt hlt
  have hbehind : (later.filterMap (·.problem)).filter (·.span = t.span) = [] := by
    refine filter_span_eq_nil ?_
    intro reading hreading problem hproblem
    have hlt := (hlater reading hreading t problem).1 htoken hproblem
    exact Nat.ne_of_gt hlt
  rw [h, List.filterMap_append, List.filter_append, hbefore, List.nil_append]
  cases hproblem : (p.reading config).problem with
  | none =>
      rw [List.filterMap_cons_none hproblem, hbehind]
      rfl
  | some problem =>
      have hspan := span_eq_span htoken hproblem
      rw [List.filterMap_cons_some hproblem, List.filter_cons_of_pos (by simp [hspan]), hbehind]
      rfl

/-- A lexeme outside of ASCII makes a token for a part of a character. There is no symbol for such
a byte, and it begins neither a word nor a number, so that its token is unknown. -/
theorem isFragment_of_not_ascii {source : Source} {front rest : List UInt8} {b : UInt8} {t : Token}
    (hbytes : source.bytes = front ++ ((Lexeme.single b).spelling ++ rest)) (hb : 0x80 ≤ b)
    (ht : ((Lexeme.single b).readAt config front.length).token = some t) : t.IsFragment source := by
  obtain rfl : ⟨singlePayload b, ⟨front.length, 1⟩⟩ = t := Option.some.inj ht
  rw [singlePayload_of_not_ascii hb]
  refine ⟨rfl, rfl, b, ?_, hb⟩
  rw [hbytes, List.getElem?_append_right (Nat.le_refl _), Nat.sub_self]
  rfl

end Lexeme

/-- Encoded bytes of a source, with encoded bytes on either side, are a source of their own. What
stands between their ends in the first source is the text of the second. -/
theorem Source.exists_part {source : Source} {front part rest : List UInt8}
    (h : source.bytes = front ++ (part ++ rest)) (hfront : Encoded front) (hpart : Encoded part)
    (hrest : Encoded rest) :
    ∃ alone : Source, alone.bytes = part ∧
      source.textBetween? front.length (front.length + part.length) = some alone.text := by
  have hlength : part.length < sizeLimit := by
    have hsource := source.length_lt
    rw [h, List.length_append, List.length_append] at hsource
    omega
  refine ⟨⟨Text.decode part, part, (Text.bytes_decode hpart).symm, hlength⟩, rfl, ?_⟩
  rw [← Text.bytes_decode hpart] at h
  have hholds := Source.Holds.of_bytes h hfront hrest
  rw [Text.bytes_decode hpart] at hholds
  exact hholds.textBetween?_eq

/-- Cut out the text that a token covers with its delimiters, and a lexer with the same choices
finds this token there and no other. It records the problems that were recorded for the token, and
none else. A token for a part of a character covers no text and is left out; every other token
begins with an ASCII byte, so that its ends fall between characters. -/
theorem drains_alone (source : Source) (comments : Bool) (malformedNumber : MalformedNumber) :
    ∃ tokens problems,
      Lexer.Drains source ⟨comments, malformedNumber, .delimited⟩ tokens problems ∧
      ∀ t ∈ tokens, ¬t.IsFragment source → ∃ alone : Source,
        source.textBetween? t.span.start t.span.stop = some alone.text ∧
        Lexer.Drains alone ⟨comments, malformedNumber, .delimited⟩ [t.atStart]
          ((problems.filter (·.span = t.span)).map Problem.atStart) := by
  refine ⟨_, _, Lexer.drains_readings source ⟨comments, malformedNumber, .delimited⟩, ?_⟩
  intro t ht hwhole
  obtain ⟨reading, hreading, htoken⟩ := List.mem_filterMap.mp ht
  obtain ⟨before, later, hreadings⟩ := List.append_of_mem hreading
  obtain ⟨p, hp, rfl⟩ := Lexeme.mem_readings hreading
  rw [Lexeme.filter_problems_eq hreadings htoken]
  obtain ⟨front, rest, hbytes, hstart, hends⟩ := Lexeme.exists_of_mem_scan hp
  obtain ⟨start, lexeme⟩ := p
  obtain rfl : start = front.length := hstart.trans (Nat.zero_add _)
  rcases Lexeme.exists_ascii_cons hends with hascii | ⟨b, rfl, hb⟩
  · obtain ⟨hfront, hlexeme, hrest⟩ :=
      Lexeme.encoded_of_endsBefore hends (hbytes ▸ source.encoded_bytes) hascii
    obtain ⟨alone, halone, htext⟩ := Source.exists_part hbytes hfront hlexeme hrest
    refine ⟨alone, ?_, ?_⟩
    · rw [Lexeme.eq_of_token htoken, Lexeme.covered_delimited]
      exact htext
    · have hdrains := Lexer.drains_readings alone ⟨comments, malformedNumber, .delimited⟩
      rw [halone, Lexeme.readings_spelling hends,
        List.filterMap_cons_some (Lexeme.token_readAt_zero htoken),
        Lexeme.filterMap_problem_readAt_zero _ front.length] at hdrains
      exact hdrains
  · exact absurd (Lexeme.isFragment_of_not_ascii hbytes hb htoken) hwhole

/-- A number with two dots behind a parenthesis. -/
def numberBehindParen : Source := ⟨"(1.2.3", _, rfl, by decide⟩

/-- The number makes the same token and the same problem where it stands alone. -/
theorem drains_alone_number :
    ∃ alone : Source, alone.text = "1.2.3" ∧
      Lexer.Drains alone ⟨true, .errorToken, .delimited⟩ [⟨.unknown "1.2.3", ⟨0, 5⟩⟩]
        [⟨.malformedNumber "1.2.3", ⟨0, 5⟩⟩] := by
  obtain ⟨tokens, problems, hdrains, halone⟩ := drains_alone numberBehindParen true .errorToken
  have hfound : Lexer.Drains numberBehindParen ⟨true, .errorToken, .delimited⟩
      [⟨.symbol (.symbol .openParen), ⟨0, 1⟩⟩, ⟨.unknown "1.2.3", ⟨1, 5⟩⟩]
      [⟨.malformedNumber "1.2.3", ⟨1, 5⟩⟩] :=
    ⟨_, (Lexer.drain_of_some rfl).trans (congrArg _
      ((Lexer.drain_of_some rfl).trans (congrArg _ (Lexer.drain_of_none rfl)))), rfl⟩
  obtain ⟨rfl, rfl⟩ := hdrains.unique hfound
  obtain ⟨alone, htext, hsame⟩ :=
    halone ⟨.unknown "1.2.3", ⟨1, 5⟩⟩ (by simp) fun hfragment => by cases hfragment.length_eq
  have hcut : numberBehindParen.textBetween? 1 6 = some "1.2.3" := by decide
  exact ⟨alone, Option.some.inj (htext.symm.trans hcut), hsame⟩

end Lexis
