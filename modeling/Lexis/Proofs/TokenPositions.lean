import Lexis.Proofs.Order
import Lexis.Proofs.Positions
import Lexis.Session
import Mathlib.Data.List.Forall2

/-!
# `Lexis.Proofs.TokenPositions`: tokens and problems have positions

A lexer places its tokens and its problems by offsets, and a session of the same source turns
offsets into positions. No span that a lexer makes is out of bounds for the session, not even
the empty one of an unterminated literal at the end of the source. The theorems:

* `stop_le_of_mem_tokens`, `stop_le_of_mem_problems`: the spans of a run lie in the source.
* `drains_positions`: they resolve as they are, to positions in the order of the run.
-/

set_option autoImplicit false

namespace Lexis

variable {source : Source} {config : Config}

/-! ### Spans within the source -/

/-- What the token of a lexeme covers lies in the source, since the lexeme does. -/
theorem stop_le_of_token {p : Placed} {t : Token}
    (hp : p ∈ Lexeme.scan config.comments 0 source.bytes)
    (h : (p.reading config).token = some t) : t.span.stop ≤ source.size := by
  have hbounds := Lexeme.offset_le_of_mem_scan hp
  have hcovered := p.lexeme.covered_le_width config
  rw [Lexeme.eq_of_token h, ← source.length_bytes]
  simp only [Placed.stop, Span.stop] at hbounds ⊢
  omega

/-- What the problem of a lexeme is about lies in the source, since the lexeme does. -/
theorem stop_le_of_problem {p : Placed} {problem : Problem}
    (hp : p ∈ Lexeme.scan config.comments 0 source.bytes)
    (h : (p.reading config).problem = some problem) : problem.span.stop ≤ source.size := by
  have hbounds := Lexeme.offset_le_of_mem_scan hp
  rw [Lexeme.span_eq_of_problem h, ← source.length_bytes]
  simp only [Placed.stop, Span.stop] at hbounds ⊢
  omega

/-- What a token of a run covers lies in the source, under every configuration. -/
theorem stop_le_of_mem_tokens {t : Token}
    (h : t ∈ (Lexeme.readings config 0 source.bytes).filterMap (·.token)) :
    t.span.stop ≤ source.size := by
  obtain ⟨reading, hreading, htoken⟩ := List.mem_filterMap.mp h
  obtain ⟨p, hp, rfl⟩ := Lexeme.mem_readings hreading
  exact stop_le_of_token hp htoken

/-- What a problem of a run is about lies in the source, under every configuration. -/
theorem stop_le_of_mem_problems {problem : Problem}
    (h : problem ∈ (Lexeme.readings config 0 source.bytes).filterMap (·.problem)) :
    problem.span.stop ≤ source.size := by
  obtain ⟨reading, hreading, hproblem⟩ := List.mem_filterMap.mp h
  obtain ⟨p, hp, rfl⟩ := Lexeme.mem_readings hreading
  exact stop_le_of_problem hp hproblem

/-! ### Their positions -/

/-- The span lies in the source and resolves to the location, whose length is the number of
bytes that its excerpt was decoded from. -/
structure Span.FullyResolves (source : Source) (span : Span) (location : Location) : Prop where
  stop_le : span.stop ≤ source.size
  resolve_eq : (Session.ofSource source).resolve span = .ok (.ok location)
  excerpt_eq : location.excerpt = Text.decode (source.slice span.start span.stop)
  byteLength_eq : location.byteLength = (source.slice span.start span.stop).length

/-- The spans resolve one by one, to positions that come one after the other. -/
def ResolveInOrder (source : Source) (spans : List Span) : Prop :=
  ∃ locations, List.Forall₂ (Span.FullyResolves source) spans locations ∧
    locations.Pairwise Location.Before

/-- A span in the source resolves as it is. Its end is addressable, and the bytes of the excerpt
are as many as its length says. -/
theorem Span.fullyResolves_location {span : Span} (h : span.stop ≤ source.size) :
    span.FullyResolves source (span.location source none) := by
  have hstart : span.start ≤ source.size := Nat.le_trans (Nat.le_add_right _ _) h
  have hlimit : span.stop + 0 < addressLimit :=
    Source.add_lt_addressLimit h (Nat.zero_le source.size)
  refine ⟨h, Span.resolve_of_le hstart hlimit, rfl, ?_⟩
  show span.length = _
  rw [Source.slice, List.length_take, List.length_drop, source.length_bytes]
  simp only [Span.stop] at h ⊢
  omega

/-- Spans that lie in the source one behind the other resolve to positions in order, since each
starts behind the one before it. -/
theorem ResolveInOrder.of_inOrder {spans : List Span}
    (hwithin : ∀ span ∈ spans, span.stop ≤ source.size) (hordered : InOrder spans) :
    ResolveInOrder source spans := by
  refine ⟨spans.map (Span.location source none), ?_, ?_⟩
  · rw [List.forall₂_map_right_iff, List.forall₂_same]
    intro span hspan
    exact Span.fullyResolves_location (hwithin span hspan)
  · rw [List.pairwise_map]
    refine hordered.imp ?_
    intro a b hab
    exact (a.locates_location source none).before_of_lt (b.locates_location source none) hab.1

/-- The spans of all tokens and of all problems of a lexer resolve in a session of its source.
None is cut short, and the positions of the tokens come one after the other, as those of the
problems do. This holds under every configuration, and for the empty span of a literal without
content as well. -/
theorem drains_positions (source : Source) (config : Config) :
    ∃ tokens problems, Lexer.Drains source config tokens problems ∧
      ResolveInOrder source (tokens.map Token.span) ∧
      ResolveInOrder source (problems.map Problem.span) := by
  refine ⟨_, _, Lexer.drains_readings source config, ?_, ?_⟩
  · refine ResolveInOrder.of_inOrder ?_ (inOrder_tokens config 0 source.bytes)
    intro span hspan
    obtain ⟨t, ht, rfl⟩ := List.mem_map.mp hspan
    exact stop_le_of_mem_tokens ht
  · refine ResolveInOrder.of_inOrder ?_ (inOrder_problems config 0 source.bytes)
    intro span hspan
    obtain ⟨problem, hproblem, rfl⟩ := List.mem_map.mp hspan
    exact stop_le_of_mem_problems hproblem

end Lexis
