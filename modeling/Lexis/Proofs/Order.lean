import Lexis.Proofs.Fidelity
import Lexis.Proofs.Resynchronization

/-!
# `Lexis.Proofs.Order`: tokens and problems in the order of the source

A token and a problem come of a lexeme, and lexemes stand one behind the other. So the spans
of tokens are in order, and the spans of problems are, under every configuration. The spans
of tokens may be empty and may leave the quotes of a literal out, which is why that their
starts differ needs a proof. The theorems:

* `Lexeme.pairwise_scan_covered`: the token of a lexeme starts before the next lexeme and
  does not reach into it.
* `inOrder_tokens`, `inOrder_problems`: the spans of a run are in order.
* `Lexeme.span_eq_span`, `Lexeme.pairwise_readings_span`: the token and the problem of one
  lexeme have one span, and those of two lexemes start one behind the other.
* `Lexeme.pairwise_scan_closed`: only the last lexeme can be an open block comment.
* `Lexeme.isMalformedNumber_of_problem`, `Lexeme.isUnterminatedComment_of_problem`: which
  lexemes are problems.
* `Lexeme.readings_errorToken`: where a malformed number makes a token, no run stops early.
-/

set_option autoImplicit false

namespace Lexis

/-- The spans start one behind the other, and none reaches into a later one. A span may be empty,
and may end where the next one starts. -/
def InOrder (spans : List Span) : Prop :=
  spans.Pairwise fun a b => a.start < b.start ∧ a.stop ≤ b.start

/-- Whether the cause is a number with more than one decimal point. -/
def Cause.isMalformedNumber : Cause → Bool
  | malformedNumber .. => true
  | _ => false

/-- Whether the cause is a source that ends inside of block comments. -/
def Cause.isUnterminatedComment : Cause → Bool
  | unterminatedComment .. => true
  | _ => false

/-! ### What a lexeme comes to -/

namespace Lexeme

/-- Whether the lexeme is a number with more than one dot. -/
def isMalformed : Lexeme → Bool
  | number run => (numberKind? run).isNone
  | _ => false

variable {config : Config} {offset : Nat} {lexeme : Lexeme}

/-- A number with two dots is a problem in every configuration, whether or not it makes a token,
and the problem covers all of it. -/
theorem problem_readAt_of_isMalformed (h : lexeme.isMalformed = true) :
    ∃ literal, (lexeme.readAt config offset).problem
      = some ⟨.malformedNumber literal, ⟨offset, lexeme.width⟩⟩ := by
  cases lexeme with
  | number run =>
      have hkind : numberKind? run = none := by simpa [isMalformed] using h
      refine ⟨Text.decode run, ?_⟩
      rw [readAt, reading, hkind]
      cases config.malformedNumber with
      | suppress => rfl
      | errorToken => rfl
  | _ => cases h

/-- The problem of a lexeme is a malformed number if the lexeme is one. -/
theorem isMalformedNumber_of_problem {problem : Problem}
    (h : (lexeme.readAt config offset).problem = some problem) :
    problem.cause.isMalformedNumber = lexeme.isMalformed := by
  rcases problem_readAt_cases h with ⟨run, rfl, hkind, rfl⟩ | ⟨_, _, _, rfl, rfl⟩
  · rw [isMalformed, hkind]
    rfl
  · rfl

/-- The problem of a lexeme is an open comment if the lexeme is one. -/
theorem isUnterminatedComment_of_problem {problem : Problem}
    (h : (lexeme.readAt config offset).problem = some problem) :
    problem.cause.isUnterminatedComment = lexeme.isOpen := by
  rcases problem_readAt_cases h with ⟨run, rfl, _, rfl⟩ | ⟨_, _, depth, rfl, rfl⟩
  · rfl
  · rfl

/-- Every lexeme makes a token where a malformed number does, as that is the only lexeme that may
make none. -/
theorem token_errorToken {comments : Bool} {quoteSpan : QuoteSpan} (lexeme : Lexeme) :
    (lexeme.readAt ⟨comments, .errorToken, quoteSpan⟩ offset).token.isSome = true := by
  cases htoken : (lexeme.readAt ⟨comments, .errorToken, quoteSpan⟩ offset).token with
  | some t => rfl
  | none => cases (malformed_of_token_eq_none htoken).1

/-- Where a malformed number makes a token, all lexemes are read, and the run does not stop early.
-/
theorem readings_errorToken (comments : Bool) (quoteSpan : QuoteSpan) (offset : Nat)
    (bytes : List UInt8) :
    readings ⟨comments, .errorToken, quoteSpan⟩ offset bytes
      = (scan comments offset bytes).map (Placed.reading ⟨comments, .errorToken, quoteSpan⟩) := by
  refine readings_eq_map ?_
  intro p _
  exact token_errorToken p.lexeme

/-! ### One lexeme behind another -/

variable {comments : Bool}

/-- Behind the end of a line the next lexeme starts one byte further on at the earliest, since the
line feed belongs to none. -/
theorem lt_start_of_lineEnd {rest : List UInt8} {q : Placed}
    (hrest : ∀ b ∈ rest.head?, b = Byte.lineFeed) (hq : q ∈ scan comments offset rest) :
    offset < q.start := by
  cases rest with
  | nil => simp [scan_nil] at hq
  | cons b rest =>
      obtain rfl : b = Byte.lineFeed := hrest b rfl
      rw [scan_cons_of_isBlank (by decide)] at hq
      exact (offset_le_of_mem_scan hq).1

/-- What the token of a lexeme covers starts before the lexeme behind it. A span that leaves out
the opening quote starts one byte later than its lexeme, and what makes up for that is the closing
quote, or the end of the line. -/
theorem covered_lt_start {rest : List UInt8} {q : Placed}
    (h : EndsBefore config.comments lexeme rest)
    (hq : q ∈ scan config.comments (offset + lexeme.width) rest) :
    offset + (lexeme.covered config).1 < q.start := by
  have hle := (offset_le_of_mem_scan hq).1
  obtain ⟨b, tail, hspelling, -⟩ := exists_spelling_eq_cons h
  have hwidth : 0 < lexeme.width := by
    rw [width, hspelling, List.length_cons]
    exact Nat.succ_pos _
  have hcovered := lexeme.covered_le_width config
  cases h with
  | @terminated quote value _ _ =>
      -- There are two quotes, and the span leaves out at most one in front.
      have hquotes : ((Lexeme.quoted quote value true).covered config).1 ≤ 1 := by
        rw [covered]
        cases config.quoteSpan with
        | content => exact Nat.le_refl 1
        | delimited => exact Nat.zero_le 1
      rw [width_terminated] at hle
      omega
  | unterminated hrun hopen =>
      -- The value may be empty, and then the span starts where the lexeme ends. Only the end
      -- of the line is there.
      have hlt := lt_start_of_lineEnd (eq_lineFeed_of_unterminated hrun hopen) hq
      omega
  | _ =>
      show offset + 0 < q.start
      omega

/-- The token of a lexeme starts before the next lexeme and does not reach into it. This is what
puts the spans of tokens in order under every configuration. -/
theorem pairwise_scan_covered (config : Config) (offset : Nat) (bytes : List UInt8) :
    (scan config.comments offset bytes).Pairwise fun p q =>
      p.start + (p.lexeme.covered config).1 < q.start ∧
      p.start + (p.lexeme.covered config).1 + (p.lexeme.covered config).2 ≤ q.start := by
  refine pairwise_scan_of ?_ offset bytes
  intro offset lexeme rest hends q hq
  have hle := (offset_le_of_mem_scan hq).1
  have hcovered := lexeme.covered_le_width config
  refine ⟨covered_lt_start hends hq, ?_⟩
  show offset + (lexeme.covered config).1 + (lexeme.covered config).2 ≤ q.start
  omega

/-- No lexeme stands behind an open block comment, since that goes to the end of the source. -/
theorem pairwise_scan_closed (comments : Bool) (offset : Nat) (bytes : List UInt8) :
    (scan comments offset bytes).Pairwise fun p _ => p.lexeme.isOpen = false := by
  refine pairwise_scan_of ?_ offset bytes
  intro offset lexeme rest hends q hq
  cases hends with
  | openComment => simp [scan_nil] at hq
  | _ => rfl

/-- An open block comment reaches to the end of the bytes. -/
theorem stop_of_isOpen {bytes : List UInt8} {p : Placed} (hp : p ∈ scan comments offset bytes)
    (hopen : p.lexeme.isOpen = true) : p.stop = offset + bytes.length := by
  obtain ⟨front, rest, rfl, hstart, hends⟩ := exists_of_mem_scan hp
  obtain ⟨start, lexeme⟩ := p
  cases hends with
  | openComment =>
      simp only [Placed.stop, width, List.append_nil, List.length_append] at hstart ⊢
      omega
  | _ => cases hopen

/-! ### The spans of a run -/

/-- What holds of any two lexemes of a scan holds of what is found in their readings, be it tokens
or problems. A run that stops early has fewer of them, in the same order. -/
theorem pairwise_readings {α : Type} {R : Placed → Placed → Prop} {S : α → α → Prop}
    (find : Reading → Option α) {bytes : List UInt8}
    (hscan : (scan config.comments offset bytes).Pairwise R)
    (h : ∀ p q a b, R p q → find (p.reading config) = some a → find (q.reading config) = some b →
      S a b) :
    ((readings config offset bytes).filterMap find).Pairwise S := by
  refine List.Pairwise.sublist ((Reading.untilStop_isPrefix _).sublist.filterMap find) ?_
  rw [List.filterMap_map, List.pairwise_filterMap]
  refine hscan.imp ?_
  intro p q hpq a ha b hb
  exact h p q a b hpq ha hb

/-- A token with a problem has the span of the problem. Neither a malformed number nor an open
comment has quotes that a span could leave out. -/
theorem span_eq_span {t : Token} {problem : Problem}
    (htoken : (lexeme.readAt config offset).token = some t)
    (hproblem : (lexeme.readAt config offset).problem = some problem) : t.span = problem.span := by
  rw [eq_of_token htoken]
  rcases problem_readAt_cases hproblem with ⟨_, rfl, _, rfl⟩ | ⟨_, _, _, rfl, rfl⟩
  · rfl
  · rfl

/-- Of two readings of a run, the token of one and the problem of the other start in the order of
the readings. This is how tokens and problems are merged. -/
theorem pairwise_readings_span (config : Config) (offset : Nat) (bytes : List UInt8) :
    (readings config offset bytes).Pairwise fun a b => ∀ t problem,
      (a.token = some t → b.problem = some problem → t.span.start < problem.span.start) ∧
      (a.problem = some problem → b.token = some t → problem.span.start < t.span.start) := by
  have hscan : (scan config.comments offset bytes).Pairwise fun p q =>
      p.start + (p.lexeme.covered config).1 < q.start ∧ p.start < q.start := by
    refine (pairwise_scan_covered config offset bytes).imp ?_
    intro p q hpq
    omega
  rw [← List.filterMap_some (l := readings config offset bytes)]
  refine pairwise_readings some hscan ?_
  intro p q a b hpq ha hb t problem
  obtain rfl := Option.some.inj ha
  obtain rfl := Option.some.inj hb
  refine ⟨?_, ?_⟩
  · intro htoken hproblem
    rw [eq_of_token htoken, span_eq_of_problem hproblem]
    exact hpq.1
  · intro hproblem htoken
    rw [eq_of_token htoken, span_eq_of_problem hproblem]
    exact Nat.lt_of_lt_of_le hpq.2 (Nat.le_add_right _ _)

end Lexeme

/-- The spans of the tokens of a run are in order, under every configuration. -/
theorem inOrder_tokens (config : Config) (offset : Nat) (bytes : List UInt8) :
    InOrder (((Lexeme.readings config offset bytes).filterMap (·.token)).map Token.span) := by
  rw [InOrder, List.pairwise_map]
  refine Lexeme.pairwise_readings _ (Lexeme.pairwise_scan_covered config offset bytes) ?_
  intro p q s t hpq hs ht
  rw [Lexeme.eq_of_token hs, Lexeme.eq_of_token ht]
  simp only [Span.stop]
  omega

/-- The spans of the problems of a run are in order, under every configuration. -/
theorem inOrder_problems (config : Config) (offset : Nat) (bytes : List UInt8) :
    InOrder (((Lexeme.readings config offset bytes).filterMap (·.problem)).map Problem.span) := by
  have hscan : (Lexeme.scan config.comments offset bytes).Pairwise fun p q =>
      p.start < q.start ∧ p.stop ≤ q.start := by
    refine (Lexeme.pairwise_scan config.comments offset bytes).imp_of_mem ?_
    intro p q hp _ hle
    have hbounds := Lexeme.offset_le_of_mem_scan hp
    omega
  rw [InOrder, List.pairwise_map]
  refine Lexeme.pairwise_readings _ hscan ?_
  intro p q s t hpq hs ht
  rw [Lexeme.span_eq_of_problem hs, Lexeme.span_eq_of_problem ht]
  exact hpq

end Lexis
