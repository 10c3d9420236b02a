import Lexis.Proofs.Scan
import Mathlib.Data.List.Basic

/-!
# `Lexis.Proofs.Coverage`: every byte in one span, or blank

Under the lossless choices a token is made of every lexeme, and its span covers the lexeme
from its first byte to its last. Between lexemes there are only blanks. So the tokens and the
blanks are the source, and nothing is lost or counted twice. The theorems:

* `Coverage.of_disjoint`: spans in a row that leave out only blanks cover all other bytes
  exactly once.
* `Lexeme.token_readAt_lossless`: the span of a token is where its lexeme stands.
* `drains_coverage`: the spans of a drained lexer cover its source.
-/

set_option autoImplicit false

namespace Lexis

/-! ### Spans over bytes -/

/-- Whether the byte at an offset lies in the span. -/
def Span.covers (span : Span) (i : Nat) : Bool := span.start ≤ i && i < span.stop

/-- The spans are not empty, lie within the bytes one behind the other, and leave out only
blanks. All other bytes lie in exactly one span. -/
structure Coverage (bytes : List UInt8) (spans : List Span) : Prop where
  nonempty : ∀ span ∈ spans, 0 < span.length
  within : ∀ span ∈ spans, span.stop ≤ bytes.length
  ordered : spans.Pairwise fun a b => compare a b = .lt
  disjoint : spans.Pairwise fun a b => a.stop ≤ b.start
  blank : ∀ i b, bytes[i]? = some b → (∀ span ∈ spans, span.covers i = false) →
    Byte.isBlank b = true
  once : ∀ i b, bytes[i]? = some b → Byte.isBlank b = false →
    spans.countP (fun span => span.covers i) = 1

/-- Spans that lie one behind the other share no byte: a byte of one of them is in front of all
later ones. -/
theorem countP_covers_le_one {spans : List Span}
    (h : spans.Pairwise fun a b => a.stop ≤ b.start) (i : Nat) :
    spans.countP (fun span => span.covers i) ≤ 1 := by
  induction h with
  | nil => simp
  | @cons span later hlater _ ih =>
      rw [List.countP_cons]
      by_cases hi : span.covers i = true
      · -- No later span reaches back to a byte of this one.
        have hnone : later.countP (fun span => span.covers i) = 0 := by
          rw [List.countP_eq_zero]
          intro other hother
          have hstop := hlater other hother
          simp only [Span.covers, Bool.and_eq_true, decide_eq_true_eq] at hi ⊢
          omega
        simp [hi, hnone]
      · simpa [hi] using ih

/-- Spans in a row that leave out only blanks cover all other bytes exactly once. That they are in
order follows too, since no span is empty. -/
theorem Coverage.of_disjoint {bytes : List UInt8} {spans : List Span}
    (nonempty : ∀ span ∈ spans, 0 < span.length)
    (within : ∀ span ∈ spans, span.stop ≤ bytes.length)
    (disjoint : spans.Pairwise fun a b => a.stop ≤ b.start)
    (blank : ∀ i b, bytes[i]? = some b → (∀ span ∈ spans, span.covers i = false) →
      Byte.isBlank b = true) :
    Coverage bytes spans where
  nonempty := nonempty
  within := within
  ordered := by
    -- A span that is not empty starts before the next one does.
    refine disjoint.imp_of_mem ?_
    intro a b ha _ hab
    have hlength := nonempty a ha
    rw [Span.compare_eq_lt_iff]
    simp only [Span.stop] at hab
    omega
  disjoint := disjoint
  blank := blank
  once := by
    intro i b hb hblank
    have hle := countP_covers_le_one disjoint i
    -- If no span covers the byte then it is blank, and otherwise one does.
    by_cases hnone : ∀ span ∈ spans, span.covers i = false
    · rw [blank i b hb hnone] at hblank
      cases hblank
    · have hpos : 0 < spans.countP (fun span => span.covers i) := by
        rw [List.countP_pos_iff]
        simpa using hnone
      omega

/-! ### Spans of tokens -/

namespace Lexeme

/-- Under the lossless choices there is a token for each lexeme, and its span is where the lexeme
stands. A malformed number makes a token, an open comment as well, and the quotes of a literal are
a part of its span. -/
theorem token_readAt_lossless (comments : Bool) (start : Nat) (lexeme : Lexeme) :
    ∃ payload, (lexeme.readAt ⟨comments, .errorToken, .delimited⟩ start).token
      = some ⟨payload, ⟨start, lexeme.width⟩⟩ := by
  -- Each lexeme makes a token, be it with a problem.
  cases lexeme with
  | number run =>
      rw [readAt, reading]
      cases numberKind? run with
      | some kind => exact ⟨_, rfl⟩
      | none => exact ⟨_, rfl⟩
  | blockComment isDoc content openDepth =>
      rw [readAt, reading]
      split
      · exact ⟨_, rfl⟩
      · exact ⟨_, rfl⟩
  | _ => exact ⟨_, rfl⟩

/-- Under the lossless choices the spans of the tokens are the places of the lexemes. No reading
lacks a token, so that no run stops early. -/
theorem spans_readings_lossless (comments : Bool) (offset : Nat) (bytes : List UInt8) :
    ((readings ⟨comments, .errorToken, .delimited⟩ offset bytes).filterMap (·.token)).map
      Token.span = (scan comments offset bytes).map Placed.span := by
  have hsome : ∀ p ∈ scan comments offset bytes,
      (p.reading ⟨comments, .errorToken, .delimited⟩).token.isSome = true := by
    intro p _
    obtain ⟨payload, htoken⟩ := token_readAt_lossless comments p.start p.lexeme
    rw [Placed.reading, htoken]
    rfl
  rw [readings_eq_map hsome, List.filterMap_map, List.map_filterMap,
    List.filterMap_eq_map_iff_forall_eq_some]
  intro p _
  obtain ⟨payload, htoken⟩ := token_readAt_lossless comments p.start p.lexeme
  simp [Placed.reading, htoken, Placed.span]

end Lexeme

/-- The places of the lexemes of bytes cover them. What a scan passes over are blanks, and a
lexeme begins where the one in front of it ended or behind blanks. -/
theorem coverage_scan (comments : Bool) (bytes : List UInt8) :
    Coverage bytes ((Lexeme.scan comments 0 bytes).map Placed.span) := by
  refine Coverage.of_disjoint ?_ ?_ ?_ ?_
  · intro span hspan
    obtain ⟨p, hp, rfl⟩ := List.mem_map.mp hspan
    have hbounds := (Lexeme.offset_le_of_mem_scan hp).2.1
    simp only [Placed.stop] at hbounds
    show 0 < p.lexeme.width
    omega
  · intro span hspan
    obtain ⟨p, hp, rfl⟩ := List.mem_map.mp hspan
    have hbounds := (Lexeme.offset_le_of_mem_scan hp).2.2
    rw [Nat.zero_add] at hbounds
    exact hbounds
  · rw [List.pairwise_map]
    exact Lexeme.pairwise_scan comments 0 bytes
  · intro i b hb hnone
    have hout : ∀ p ∈ Lexeme.scan comments 0 bytes, ¬(p.start ≤ 0 + i ∧ 0 + i < p.stop) := by
      intro p hp hcovers
      have hin : p.span.covers i = true := by
        rw [Nat.zero_add] at hcovers
        rw [Span.covers, Bool.and_eq_true, decide_eq_true_iff, decide_eq_true_iff]
        exact hcovers
      rw [hnone p.span (List.mem_map_of_mem hp)] at hin
      cases hin
    exact Lexeme.isBlank_of_uncovered hb hout

/-- The spans of a drained lexer cover its source, if a malformed number makes a token and the
spans of quoted literals take the quotes in. This holds for every source, with comments as tokens
and without: where slashes begin no comments, what would be one is made of other tokens. -/
theorem drains_coverage (source : Source) (comments : Bool) :
    ∃ tokens problems,
      Lexer.Drains source ⟨comments, .errorToken, .delimited⟩ tokens problems ∧
        Coverage source.bytes (tokens.map Token.span) := by
  refine ⟨_, _, Lexer.drains_readings source ⟨comments, .errorToken, .delimited⟩, ?_⟩
  rw [Lexeme.spans_readings_lossless]
  exact coverage_scan comments source.bytes

end Lexis
