import Lexis.Lexer.Strict
import Lexis.Proofs.Truncation

/-!
# `Lexis.Proofs.Strictness`: what the strict reading answers

The strict reading drains a lexer and answers with all of the tokens or with one problem. It looks
for problems in two places: in what the lexer recorded, and among the tokens for quoted literals
that break off. Within each place it takes the first, and what was recorded goes before what the
tokens show. The theorems:

* `tokenize_of_drains`: the answer, from what draining gives.
* `Lexeme.readings_suppress_or`: a run that a malformed number ends has no problem but the first
  one of the run that goes on.
* `tokenize_everyMode`: so the answer does not depend on what a malformed number makes, and it is
  the tokens where nothing is wrong with the source.
* `tokenize_refuses`: which problem a source is refused for.
* `tokenize_literalBeforeNumber`: it need not be the first one in the source.
-/

set_option autoImplicit false

namespace Lexis

/-- The token is a quoted literal without its closing quote. -/
def Token.BreaksOff (t : Token) : Prop :=
  ∃ quote value, t.payload = .literal (.quoted quote value false)

/-- The problem that a run is refused for, if there is one: the first that was recorded, or else
that of the first literal that breaks off. Where both exist their places are not compared. -/
def refusal? (tokens : List Token) (problems : List Problem) : Option Problem :=
  problems.head?.or (tokens.findSome? Token.unterminated?)

/-- What the strict reading makes of a run. -/
def strictAnswer (tokens : List Token) (problems : List Problem) : Except Problem (List Token) :=
  match refusal? tokens problems with
  | some problem => .error problem
  | none => .ok tokens

/-! ### Literals that break off -/

namespace Token

variable {t : Token} {problem : Problem}

/-- A literal that breaks off is a problem where it stands. This is the problem that strict lexing
makes of a token, since a lexer records none for it. -/
theorem exists_unterminated? (h : t.BreaksOff) :
    ∃ found, t.unterminated? = some found ∧ found.span = t.span := by
  obtain ⟨payload, span⟩ := t
  obtain ⟨quote, value, rfl⟩ := h
  exact ⟨⟨.unterminatedLiteral (Literal.quoted quote value false).kind.word, span⟩, rfl, rfl⟩

/-- No other token is, and the problem stands where the token does, quotes included or left out. -/
theorem breaksOff_of_unterminated? (h : t.unterminated? = some problem) :
    t.BreaksOff ∧ problem.span = t.span := by
  have hbreaks : t.BreaksOff := by
    obtain ⟨payload, span⟩ := t
    cases payload with
    | literal l =>
        cases l with
        | number kind value base => cases h
        | quoted quote value isTerminated =>
            cases isTerminated with
            | false => exact ⟨quote, value, rfl⟩
            | true => cases h
    | _ => cases h
  obtain ⟨found, hfound, hspan⟩ := exists_unterminated? hbreaks
  rw [hfound, Option.some.injEq] at h
  exact ⟨hbreaks, h ▸ hspan⟩

/-- A token is no problem if and only if it does not break off. -/
theorem unterminated?_eq_none_iff : t.unterminated? = none ↔ ¬ t.BreaksOff := by
  constructor
  · intro hnone hbreaks
    obtain ⟨found, hfound, -⟩ := exists_unterminated? hbreaks
    simp [hnone] at hfound
  · intro hbreaks
    rw [Option.eq_none_iff_forall_ne_some]
    intro found hfound
    exact hbreaks (breaksOff_of_unterminated? hfound).1

end Token

/-! ### The answer to a run -/

section Answers

variable {source : Source} {config : Config} {tokens : List Token} {problems : List Problem}

/-- The strict reading always has an answer, and it is made of what draining gives. What is said
of `strictAnswer` below is thereby said of `tokenize`. -/
theorem tokenize_of_drains (h : Lexer.Drains source config tokens problems) :
    tokenize source config = .ok (strictAnswer tokens problems) := by
  obtain ⟨behind, hdrain, rfl⟩ := h
  have hfirst : behind.problems[0]? = behind.problems.toList.head? := by
    rw [List.head?_eq_getElem?, Array.getElem?_toList]
  unfold tokenize strictAnswer refusal?
  rw [hdrain]
  show (match behind.problems[0]? with
    | some problem => _
    | none => _) = _
  rw [hfirst]
  cases behind.problems.toList.head? with
  | some problem => rfl
  | none =>
      rw [Option.none_or]
      dsimp only
      cases tokens.findSome? Token.unterminated? <;> rfl

/-- A run is not refused if and only if nothing was recorded and no literal breaks off. Recorded
problems are looked at first. -/
theorem refusal?_eq_none_iff :
    refusal? tokens problems = none ↔ problems = [] ∧ ∀ t ∈ tokens, ¬ t.BreaksOff := by
  simp only [refusal?, Option.or_eq_none_iff, List.head?_eq_none_iff, List.findSome?_eq_none_iff,
    Token.unterminated?_eq_none_iff]

/-- A run that is not refused is answered with all of its tokens, comments and unknown ones
included. -/
theorem strictAnswer_eq_ok_iff {found : List Token} :
    strictAnswer tokens problems = .ok found ↔
      (problems = [] ∧ ∀ t ∈ tokens, ¬ t.BreaksOff) ∧ found = tokens := by
  rw [← refusal?_eq_none_iff, strictAnswer]
  cases refusal? tokens problems <;> simp [eq_comm]

/-- A run that is refused is answered with the problem that it is refused for. -/
theorem strictAnswer_eq_error_iff {problem : Problem} :
    strictAnswer tokens problems = .error problem ↔ refusal? tokens problems = some problem := by
  rw [strictAnswer]
  cases refusal? tokens problems <;> simp

end Answers

/-! ### Malformed numbers that end the run -/

namespace Lexeme

/-- A run that a malformed number ends reads what the run reads that goes on, or else both have
one first problem. That problem is the first malformed number: nothing is recorded in front of it,
as an open comment would reach to the end. -/
theorem readings_suppress_or (comments : Bool) (quoteSpan : QuoteSpan) (offset : Nat)
    (bytes : List UInt8) :
    readings ⟨comments, .suppress, quoteSpan⟩ offset bytes
      = readings ⟨comments, .errorToken, quoteSpan⟩ offset bytes ∨
    ∃ first, ∀ mode,
      ((readings ⟨comments, mode, quoteSpan⟩ offset bytes).filterMap (·.problem)).head?
        = some first := by
  cases hfind : (scan comments offset bytes).find? (·.lexeme.isMalformed) with
  | none =>
      refine .inl (readings_suppress_of_clean ?_)
      intro p hp
      simpa using List.find?_eq_none.mp hfind p hp
  | some p =>
      obtain ⟨hp, front, later, hscan, hfront⟩ := List.find?_eq_some_iff_append.mp hfind
      have hclean : ∀ q ∈ front, q.lexeme.isMalformed = false := by
        intro q hq
        simpa using hfront q hq
      -- Nothing is recorded in front of the number, and the number is recorded in either mode.
      have hquiet : (front.map (Placed.reading ⟨comments, .errorToken, quoteSpan⟩)).filterMap
          (·.problem) = [] := filterMap_problem_before hscan hclean
      obtain ⟨literal, hfirst⟩ : ∃ literal,
          (p.reading ⟨comments, .errorToken, quoteSpan⟩).problem
            = some ⟨.malformedNumber literal, p.span⟩ := problem_readAt_of_isMalformed hp
      have hfirst' : (p.reading ⟨comments, .suppress, quoteSpan⟩).problem
          = some ⟨.malformedNumber literal, p.span⟩ :=
        (problem_suppress p.lexeme).trans hfirst
      refine .inr ⟨⟨.malformedNumber literal, p.span⟩, ?_⟩
      intro mode
      cases mode with
      | suppress =>
          rw [readings_suppress hscan hclean hp, List.filterMap_append, hquiet]
          simp [hfirst']
      | errorToken =>
          rw [readings_errorToken, hscan, List.map_append, List.filterMap_append, hquiet]
          simp [hfirst]

/-- What is recorded is a malformed number or an open block comment, as a lexer records no other
cause. -/
theorem isMalformedNumber_or_of_problem {config : Config} {offset : Nat} {lexeme : Lexeme}
    {problem : Problem} (h : (lexeme.readAt config offset).problem = some problem) :
    problem.cause.isMalformedNumber = true ∨ problem.cause.isUnterminatedComment = true := by
  rcases problem_readAt_cases h with ⟨run, -, -, rfl⟩ | ⟨isDoc, content, depth, -, rfl⟩
  · exact .inl rfl
  · exact .inr rfl

/-- But for malformed numbers, an unknown token is a single byte: one that begins nothing else and
writes no symbol. -/
theorem length_span_of_unknown {config : Config} {offset : Nat} {lexeme : Lexeme} {t : Token}
    (h : (lexeme.readAt config offset).token = some t) (hmalformed : lexeme.isMalformed = false)
    (hunknown : t.kind = .unknown) : t.span.length = 1 := by
  have hkind : lexeme.payload.kind = .unknown := by
    rw [← hunknown, eq_of_token h]
    rfl
  rw [eq_of_token h]
  cases lexeme with
  | single b => rfl
  | word letters =>
      unfold payload wordPayload at hkind
      cases hword : Keyword.ofSpelling? (Text.decode letters) <;>
        simp [hword, Payload.kind] at hkind
  | number run =>
      unfold isMalformed at hmalformed
      unfold payload at hkind
      cases hnumber : numberKind? run <;> simp_all [Payload.kind]
  | _ => cases hkind

end Lexeme

/-! ### The answer in every mode -/

/-- How an answer compares with a run in which malformed numbers make tokens. -/
structure AnswersFor (tokens : List Token) (problems : List Problem)
    (answer : Except Problem (List Token)) : Prop where
  /-- A source is accepted where no number is malformed, no block comment stays open and no
  literal breaks off. -/
  accepts_iff : (∃ found, answer = .ok found) ↔
    (∀ problem ∈ problems, problem.cause.isMalformedNumber = false) ∧
    (∀ problem ∈ problems, problem.cause.isUnterminatedComment = false) ∧
    ∀ t ∈ tokens, ¬ t.BreaksOff
  /-- Then the answer is all of the tokens. -/
  complete : ∀ found, answer = .ok found → found = tokens
  /-- What is unknown among them is single bytes. -/
  unknown_single : ∀ found, answer = .ok found →
    ∀ t ∈ found, t.kind = .unknown → t.span.length = 1

section Modes

variable (source : Source) (comments : Bool) (quoteSpan : QuoteSpan)

/-- Nothing is recorded where no number is malformed and no block comment stays open, and nothing
else is ever recorded. -/
theorem problems_eq_nil_iff_causes (config : Config) :
    (Lexeme.readings config 0 source.bytes).filterMap (·.problem) = [] ↔
      (∀ problem ∈ (Lexeme.readings config 0 source.bytes).filterMap (·.problem),
        problem.cause.isMalformedNumber = false) ∧
      ∀ problem ∈ (Lexeme.readings config 0 source.bytes).filterMap (·.problem),
        problem.cause.isUnterminatedComment = false := by
  constructor
  · intro hnone
    rw [hnone]
    simp
  · rintro ⟨hmalformed, hopen⟩
    rw [List.eq_nil_iff_forall_not_mem]
    intro problem hmem
    obtain ⟨reading, hreading, hproblem⟩ := List.mem_filterMap.mp hmem
    obtain ⟨p, -, rfl⟩ := Lexeme.mem_readings hreading
    have hcause := Lexeme.isMalformedNumber_or_of_problem hproblem
    simp [hmalformed problem hmem, hopen problem hmem] at hcause

/-- Where no number is malformed, what is unknown is single bytes. So no text that strict lexing
accepts has an unknown token of more. -/
theorem length_span_of_mem_tokens
    (hnone : (Lexeme.readings ⟨comments, .errorToken, quoteSpan⟩ 0 source.bytes).filterMap
      (·.problem) = []) :
    ∀ t ∈ (Lexeme.readings ⟨comments, .errorToken, quoteSpan⟩ 0 source.bytes).filterMap
      (·.token), t.kind = .unknown → t.span.length = 1 := by
  intro t ht
  obtain ⟨reading, hreading, htoken⟩ := List.mem_filterMap.mp ht
  have hquiet := List.filterMap_eq_nil_iff.mp hnone reading hreading
  obtain ⟨p, -, rfl⟩ := Lexeme.mem_readings hreading
  refine Lexeme.length_span_of_unknown htoken ?_
  rw [Bool.eq_false_iff]
  intro hmalformed
  obtain ⟨literal, hproblem⟩ : ∃ literal, (p.reading ⟨comments, .errorToken, quoteSpan⟩).problem
      = some ⟨.malformedNumber literal, p.span⟩ := Lexeme.problem_readAt_of_isMalformed hmalformed
  simp [hproblem] at hquiet

/-- The strict reading gives one answer for either choice about malformed numbers. Suppressed or
not, a malformed number is a recorded problem, and a source with one is refused. -/
theorem tokenize_suppress :
    tokenize source ⟨comments, .suppress, quoteSpan⟩
      = tokenize source ⟨comments, .errorToken, quoteSpan⟩ := by
  rw [tokenize_of_drains (Lexer.drains_readings source ⟨comments, .suppress, quoteSpan⟩),
    tokenize_of_drains (Lexer.drains_readings source ⟨comments, .errorToken, quoteSpan⟩)]
  rcases Lexeme.readings_suppress_or comments quoteSpan 0 source.bytes with hsame | ⟨first, hfirst⟩
  · rw [hsame]
  · -- Either run is refused for its first recorded problem, whatever its tokens are.
    unfold strictAnswer refusal?
    rw [hfirst .suppress, hfirst .errorToken]
    rfl

/-- The answer to a run in which malformed numbers make tokens, with each part of it read off the
tokens and the problems of that run. -/
theorem answersFor_readings :
    AnswersFor
      ((Lexeme.readings ⟨comments, .errorToken, quoteSpan⟩ 0 source.bytes).filterMap (·.token))
      ((Lexeme.readings ⟨comments, .errorToken, quoteSpan⟩ 0 source.bytes).filterMap (·.problem))
      (strictAnswer
        ((Lexeme.readings ⟨comments, .errorToken, quoteSpan⟩ 0 source.bytes).filterMap (·.token))
        ((Lexeme.readings ⟨comments, .errorToken, quoteSpan⟩ 0 source.bytes).filterMap
          (·.problem))) where
  accepts_iff := by
    simp only [strictAnswer_eq_ok_iff, exists_and_left, exists_eq, and_true]
    rw [problems_eq_nil_iff_causes, and_assoc]
  complete := by
    intro found hfound
    exact (strictAnswer_eq_ok_iff.mp hfound).2
  unknown_single := by
    intro found hfound
    obtain ⟨⟨hnone, -⟩, rfl⟩ := strictAnswer_eq_ok_iff.mp hfound
    exact length_span_of_mem_tokens source comments quoteSpan hnone

/-- The strict reading gives one answer whatever a malformed number makes. A source is accepted if
and only if the run in which malformed numbers make tokens has no problem and no literal that
breaks off, and the answer is all that this run gives. -/
theorem tokenize_everyMode :
    ∃ tokens problems answer,
      Lexer.Drains source ⟨comments, .errorToken, quoteSpan⟩ tokens problems ∧
      (∀ mode, tokenize source ⟨comments, mode, quoteSpan⟩ = .ok answer) ∧
      AnswersFor tokens problems answer := by
  have hdrains := Lexer.drains_readings source ⟨comments, .errorToken, quoteSpan⟩
  have hanswer := tokenize_of_drains hdrains
  refine ⟨_, _, strictAnswer _ _, hdrains, ?_, answersFor_readings source comments quoteSpan⟩
  intro mode
  cases mode with
  | suppress => rw [tokenize_suppress, hanswer]
  | errorToken => exact hanswer

end Modes

/-! ### The problem that is reported -/

/-- The problems of a run: those recorded, and those of the literals that break off. -/
def runProblems (tokens : List Token) (problems : List Problem) : List Problem :=
  problems ++ tokens.filterMap Token.unterminated?

/-- Which of the problems of a run is reported. -/
structure Refusal (tokens : List Token) (problems : List Problem) (reported : Problem) :
    Prop where
  mem : reported ∈ runProblems tokens problems
  /-- If something was recorded then it is the first of what was recorded. -/
  first_recorded : problems ≠ [] →
    reported ∈ problems ∧ ∀ other ∈ problems, reported.span.start ≤ other.span.start
  /-- If nothing was then it is the first literal that breaks off. -/
  first_broken : problems = [] →
    ∀ t ∈ tokens, t.BreaksOff → reported.span.start ≤ t.span.start
  /-- A problem comes before it only if that is a literal and what is reported was recorded. -/
  preceded_iff :
    (∃ other ∈ runProblems tokens problems, other.span.start < reported.span.start) ↔
      reported ∈ problems ∧ ∃ t ∈ tokens, t.BreaksOff ∧ t.span.start < reported.span.start

section Refusals

variable {tokens : List Token} {problems : List Problem} {reported : Problem}

/-- The problems of a run are the recorded ones and those of the literals that break off, wherever
they stand. -/
theorem mem_runProblems_iff {other : Problem} :
    other ∈ runProblems tokens problems ↔
      other ∈ problems ∨ ∃ t ∈ tokens, t.unterminated? = some other := by
  simp [runProblems]

/-- A run without problems is one that is not refused. -/
theorem runProblems_eq_nil_iff :
    runProblems tokens problems = [] ↔ refusal? tokens problems = none := by
  rw [refusal?_eq_none_iff]
  simp [runProblems, Token.unterminated?_eq_none_iff]

/-- What is first in a list in order starts first. -/
theorem InOrder.start_le {a : Span} {spans : List Span} (h : InOrder (a :: spans)) :
    ∀ b ∈ a :: spans, a.start ≤ b.start := by
  intro b hb
  rcases List.mem_cons.mp hb with rfl | hb
  · exact Nat.le_refl _
  · exact Nat.le_of_lt (List.rel_of_pairwise_cons h hb).1

/-- The first problem that was recorded starts first, as problems are recorded in the order of the
source. -/
theorem start_le_of_head? (h : InOrder (problems.map Problem.span))
    (hfirst : problems.head? = some reported) :
    ∀ other ∈ problems, reported.span.start ≤ other.span.start := by
  obtain ⟨later, rfl⟩ := List.head?_eq_some_iff.mp hfirst
  intro other hother
  exact h.start_le other.span (List.mem_map_of_mem hother)

/-- The first literal that breaks off starts first, as tokens are found in the order of the
source. -/
theorem start_le_of_findSome? (h : InOrder (tokens.map Token.span))
    (hfirst : tokens.findSome? Token.unterminated? = some reported) :
    ∀ t ∈ tokens, t.BreaksOff → reported.span.start ≤ t.span.start := by
  obtain ⟨front, broken, later, rfl, hbroken, hfront⟩ := List.findSome?_eq_some_iff.mp hfirst
  rw [(Token.breaksOff_of_unterminated? hbroken).2]
  intro t ht hbreaks
  rcases List.mem_append.mp ht with ht | ht
  · exact absurd hbreaks (Token.unterminated?_eq_none_iff.mp (hfront t ht))
  · have hlater : InOrder ((broken :: later).map Token.span) := by
      unfold InOrder at h ⊢
      rw [List.map_append, List.pairwise_append] at h
      exact h.2.1
    exact hlater.start_le t.span (List.mem_map_of_mem ht)

/-- If something was recorded, what is reported is the first of it. Literals that break off in
front of it are passed by. -/
theorem Refusal.of_recorded (h : InOrder (problems.map Problem.span))
    (hfirst : problems.head? = some reported) : Refusal tokens problems reported where
  mem := by
    rw [mem_runProblems_iff]
    exact .inl (List.mem_of_head? hfirst)
  first_recorded := by
    intro _
    exact ⟨List.mem_of_head? hfirst, start_le_of_head? h hfirst⟩
  first_broken := by
    intro hnone
    simp [hnone] at hfirst
  preceded_iff := by
    simp only [mem_runProblems_iff]
    constructor
    · rintro ⟨other, hother | ⟨t, ht, hother⟩, hlt⟩
      · -- No recorded problem comes before the first one.
        exact absurd hlt (Nat.not_lt.mpr (start_le_of_head? h hfirst other hother))
      · obtain ⟨hbreaks, hspan⟩ := Token.breaksOff_of_unterminated? hother
        exact ⟨List.mem_of_head? hfirst, t, ht, hbreaks, hspan ▸ hlt⟩
    · rintro ⟨-, t, ht, hbreaks, hlt⟩
      obtain ⟨other, hother, hspan⟩ := Token.exists_unterminated? hbreaks
      exact ⟨other, .inr ⟨t, ht, hother⟩, hspan ▸ hlt⟩

/-- If nothing was recorded, what is reported is the first literal that breaks off, and then no
problem of the run starts in front of it. -/
theorem Refusal.of_broken (h : InOrder (tokens.map Token.span))
    (hfirst : tokens.findSome? Token.unterminated? = some reported) :
    Refusal tokens [] reported where
  mem := by
    rw [mem_runProblems_iff]
    exact .inr (List.exists_of_findSome?_eq_some hfirst)
  first_recorded := by
    intro hsome
    exact absurd rfl hsome
  first_broken := by
    intro _
    exact start_le_of_findSome? h hfirst
  preceded_iff := by
    simp only [mem_runProblems_iff]
    constructor
    · rintro ⟨other, hother | ⟨t, ht, hother⟩, hlt⟩
      · cases hother
      · obtain ⟨hbreaks, hspan⟩ := Token.breaksOff_of_unterminated? hother
        have hle := start_le_of_findSome? h hfirst t ht hbreaks
        rw [hspan] at hlt
        exact absurd hlt (Nat.not_lt.mpr hle)
    · rintro ⟨hmem, -⟩
      cases hmem

/-- What a run is refused for is what a refusal should report, in one way or the other. Both lists
must be in the order of the source for the first of each to be the one in front. -/
theorem Refusal.of_refusal? (hproblems : InOrder (problems.map Problem.span))
    (htokens : InOrder (tokens.map Token.span))
    (h : refusal? tokens problems = some reported) : Refusal tokens problems reported := by
  rw [refusal?, Option.or_eq_some_iff] at h
  rcases h with hfirst | ⟨hnone, hfirst⟩
  · exact .of_recorded hproblems hfirst
  · obtain rfl := List.head?_eq_none_iff.mp hnone
    exact .of_broken htokens hfirst

end Refusals

/-- The strict reading refuses a source if and only if the run has a problem, be it recorded or a
literal that breaks off, and it reports one of them. Of either sort it takes the first one. So no
problem comes before the one reported, except for literals that break off where something was
recorded behind them. -/
theorem tokenize_refuses (source : Source) (config : Config) :
    ∃ tokens problems answer, Lexer.Drains source config tokens problems ∧
      tokenize source config = .ok answer ∧
      ((∃ reported, answer = .error reported) ↔ runProblems tokens problems ≠ []) ∧
      ∀ reported, answer = .error reported → Refusal tokens problems reported := by
  have hdrains := Lexer.drains_readings source config
  refine ⟨_, _, strictAnswer _ _, hdrains, tokenize_of_drains hdrains, ?_, ?_⟩
  · simp only [strictAnswer_eq_error_iff, ne_eq, runProblems_eq_nil_iff]
    rw [Option.eq_none_iff_forall_ne_some]
    simp
  · intro reported hreported
    exact .of_refusal? (inOrder_problems config 0 source.bytes)
      (inOrder_tokens config 0 source.bytes) (strictAnswer_eq_error_iff.mp hreported)

/-- A literal that breaks off, with a malformed number on the next line. -/
def literalBeforeNumber : Source := ⟨"'a\n1.2.3", _, rfl, by decide⟩

/-- The number is reported, although the literal is a problem too and stands in front of it. -/
theorem tokenize_literalBeforeNumber :
    Lexer.Drains literalBeforeNumber {} [⟨.literal (.quoted .char "a" false), ⟨1, 1⟩⟩]
      [⟨.malformedNumber "1.2.3", ⟨3, 5⟩⟩] ∧
    tokenize literalBeforeNumber {} = .ok (.error ⟨.malformedNumber "1.2.3", ⟨3, 5⟩⟩) ∧
    ∃ other ∈ runProblems [⟨.literal (.quoted .char "a" false), ⟨1, 1⟩⟩]
        [⟨.malformedNumber "1.2.3", ⟨3, 5⟩⟩],
      other.span.start < 3 := by
  have hdrains : Lexer.Drains literalBeforeNumber {}
      [⟨.literal (.quoted .char "a" false), ⟨1, 1⟩⟩] [⟨.malformedNumber "1.2.3", ⟨3, 5⟩⟩] :=
    ⟨_, (Lexer.drain_of_some rfl).trans (congrArg _ (Lexer.drain_of_none rfl)), rfl⟩
  refine ⟨hdrains, tokenize_of_drains hdrains, ?_⟩
  exact ⟨⟨.unterminatedLiteral "char", ⟨1, 1⟩⟩, by decide, by decide⟩

end Lexis
