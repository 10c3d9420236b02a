import Lexis.Proofs.Calls
import Lexis.Proofs.Order
import Mathlib.Data.List.Basic

/-!
# `Lexis.Proofs.Reports`: the problems that the tokens show

Problems are recorded on the way, apart from the tokens. Where a malformed number makes a
token, nothing is lost if they are not: each problem can be read off its token
(`Token.problem?`), with a look at the source to see whether a block comment is closed. The
theorems:

* `Lexeme.openDepth_of_endsBefore`: counting openers and closers in the text of a block comment
  gives how many comments it leaves open.
* `Lexeme.problem_eq_problem?`: the problem of a lexeme is what its token shows.
* `drains_reports`: the problems of a drained lexer are those that its tokens show, in order,
  and taking them bit by bit makes no difference.
-/

set_option autoImplicit false

namespace Lexis

open Text (Encoded)

/-! ### What tokens show -/

/-- How many block comments are open at the end of bytes that stand inside of one. Each opener
counts one up and each closer one down, down to zero. -/
def openDepth (bytes : List UInt8) : Nat :=
  (marks bytes).foldl (fun depth mark => mark.count depth) 1

/-- Whether a text starts with a digit. -/
def startsWithDigit (text : String) : Bool := (Text.bytes text).head?.any Byte.isDigit

/-- The problem that a token of a source shows: an unknown token that starts with a digit is a
malformed number, and a block comment may leave comments open. -/
def Token.problem? (source : Source) (t : Token) : Option Problem :=
  match t.payload with
  | .unknown text =>
    if startsWithDigit text then some ⟨.malformedNumber text, t.span⟩ else none
  | .comment ⟨.block, _, _⟩ =>
    let depth := openDepth ((source.slice t.span.start t.span.stop).drop 2)
    if depth = 0 then none else some ⟨.unterminatedComment depth, t.span⟩
  | _ => none

/-- What the token of a block comment shows, with the number of comments that its bytes behind the
opener leave open (`h`). -/
theorem Token.problem?_blockComment {source : Source} (span : Span) {depth : Nat} (isDoc : Bool)
    (text : String) (h : openDepth ((source.slice span.start span.stop).drop 2) = depth) :
    Token.problem? source ⟨.comment ⟨.block, isDoc, text⟩, span⟩
      = if depth = 0 then none else some ⟨.unterminatedComment depth, span⟩ := by
  subst h
  rfl

/-- The problems of a run are those that its tokens show. Their spans are in order. At most one
is an open block comment, which is the last problem and the last token and reaches to the end
of the source. -/
structure Reports (source : Source) (tokens : List Token) (problems : List Problem) : Prop where
  shown : problems = tokens.filterMap (Token.problem? source)
  inOrder : InOrder (problems.map Problem.span)
  unterminated_le_one : problems.countP (·.cause.isUnterminatedComment) ≤ 1
  unterminated_last : ∀ problem ∈ problems, problem.cause.isUnterminatedComment = true →
    problems.getLast? = some problem ∧ problem.span.stop = source.size ∧
    ∃ t, tokens.getLast? = some t ∧ t.span = problem.span ∧ t.kind = .blockComment

/-! ### Lexemes and what their tokens show -/

/-- A count goes from its start to its end by the marks. `Counts` says in addition that it does
not come to zero on the way, which the sum does not need. -/
theorem Counts.foldl_eq {before after : Nat} {found : List Mark} (h : Counts before after found) :
    found.foldl (fun depth mark => mark.count depth) before = after := by
  induction found generalizing before with
  | nil => exact counts_nil_iff.mp h
  | cons mark found ih => exact ih (counts_cons_iff.mp h).2

namespace Lexeme

/-- Counting openers and closers in the text of a block comment gives how many comments it leaves
open. A closed comment leaves none, since its last closer is its own. -/
theorem openDepth_of_endsBefore {comments isDoc : Bool} {content rest : List UInt8} {depth : Nat}
    (h : EndsBefore comments (.blockComment isDoc content depth) rest) :
    openDepth ((Lexeme.blockComment isDoc content depth).spelling.drop 2) = depth := by
  cases h with
  | closedComment _ hdoc hnest =>
      rw [spelling_closedComment]
      exact (nests_iff_counts.mp ((nests_closed_iff hdoc).mpr hnest)).foldl_eq
  | openComment _ hdoc hnest =>
      rw [spelling_openComment]
      exact (nests_iff_counts.mp ((nests_open_iff hdoc).mpr hnest)).foldl_eq

/-- The text shown for a byte that stands alone does not start with a digit. For a byte outside of
ASCII this is the replacement character. -/
theorem startsWithDigit_decode_singleton {b : UInt8} (h : Byte.isDigit b = false) :
    startsWithDigit (Text.decode [b]) = false := by
  by_cases hb : b < 0x80
  · have hencoded : Encoded [b] := Text.encoded_of_ascii (by simpa using hb)
    rw [startsWithDigit, Text.bytes_decode hencoded]
    exact h
  · rw [decode_of_not_ascii (UInt8.not_lt.mp hb)]
    decide

variable {source : Source} {config : Config} {front rest : List UInt8} {t : Token}

/-- The problem of a number is what its token shows: a malformed one makes an unknown token, and
that starts with the first digit. Where it makes no token there is nothing to show, which `ht`
leaves out. -/
theorem problem_eq_problem?_number {b : UInt8} {run : List UInt8} (hb : Byte.isDigit b = true)
    (hrun : LongestRun Byte.continuesNumber run rest)
    (ht : ((Lexeme.number (b :: run)).readAt config front.length).token = some t) :
    ((Lexeme.number (b :: run)).readAt config front.length).problem = t.problem? source := by
  unfold readAt at ht ⊢
  rw [reading] at ht ⊢
  cases hkind : numberKind? (b :: run) with
  | some kind =>
      simp only [hkind, Option.some.injEq] at ht ⊢
      subst ht
      rfl
  | none =>
      cases hmode : config.malformedNumber with
      | suppress => simp [hkind, hmode] at ht
      | errorToken =>
          simp only [hkind, hmode, Option.some.injEq] at ht ⊢
          subst ht
          have hdigit : startsWithDigit (Text.decode (b :: run)) = true := by
            rw [startsWithDigit, Text.bytes_decode (encoded_number hb hrun)]
            exact hb
          rw [Token.problem?]
          simp only [hdigit, if_true]
          rfl

/-- The problem of a block comment is what its token shows, since the span of the token covers all
that the lexer counted in. `h` places the comment in the source. -/
theorem problem_eq_problem?_blockComment {isDoc : Bool} {content : List UInt8} {depth : Nat}
    (hends : EndsBefore config.comments (.blockComment isDoc content depth) rest)
    (h : source.bytes = front ++ ((Lexeme.blockComment isDoc content depth).spelling ++ rest))
    (ht : ((Lexeme.blockComment isDoc content depth).readAt config front.length).token = some t) :
    ((Lexeme.blockComment isDoc content depth).readAt config front.length).problem
      = t.problem? source := by
  -- What stands at the span of the token is the lexeme as it is spelled.
  have hdepth := openDepth_of_endsBefore hends
  rw [← Source.slice_append h] at hdepth
  have hshown (text : String) := Token.problem?_blockComment
    ⟨front.length, width (.blockComment isDoc content depth)⟩ isDoc text hdepth
  cases depth with
  | zero =>
      obtain rfl := Option.some.inj ht
      exact (hshown (Text.decode content)).symm
  | succ depth =>
      obtain rfl := Option.some.inj ht
      exact (hshown (Text.decode content)).symm

/-- A byte that stands alone has no problem, and its token shows none. It may be an unknown token,
but it does not start with a digit, as that would begin a number (`hb`). -/
theorem problem_eq_problem?_single {b : UInt8} (hb : Byte.isDigit b = false)
    (ht : ((Lexeme.single b).readAt config front.length).token = some t) :
    ((Lexeme.single b).readAt config front.length).problem = t.problem? source := by
  obtain rfl := Option.some.inj ht
  show none = Token.problem? source ⟨singlePayload b, _⟩
  rw [singlePayload]
  cases Symbol.ofByte? b with
  | some sign => rfl
  | none =>
      simp only [Token.problem?, startsWithDigit_decode_singleton hb]
      rfl

/-- The problem of a lexeme is what its token shows, lexeme by lexeme. Words, quoted literals and
line comments have no problem, and their tokens show none. -/
theorem problem_eq_problem? {lexeme : Lexeme} (hends : EndsBefore config.comments lexeme rest)
    (h : source.bytes = front ++ (lexeme.spelling ++ rest))
    (ht : (lexeme.readAt config front.length).token = some t) :
    (lexeme.readAt config front.length).problem = t.problem? source := by
  cases lexeme with
  | word letters =>
      obtain rfl := Option.some.inj ht
      show none = Token.problem? source ⟨wordPayload letters, _⟩
      rw [wordPayload]
      cases Keyword.ofSpelling? (Text.decode letters) with
      | some reserved => rfl
      | none => rfl
  | number run =>
      cases hends with
      | number hb hrun => exact problem_eq_problem?_number hb hrun ht
  | quoted quote value isTerminated =>
      obtain rfl := Option.some.inj ht
      rfl
  | lineComment isDoc content =>
      obtain rfl := Option.some.inj ht
      rfl
  | blockComment isDoc content depth => exact problem_eq_problem?_blockComment hends h ht
  | single b =>
      cases hends with
      | single halone => exact problem_eq_problem?_single halone.digit ht

/-- Where malformed numbers make tokens, the tokens of a run show its problems. Each lexeme makes
a token there, so that no problem is without one. -/
theorem problems_readings_errorToken (source : Source) (comments : Bool) (quoteSpan : QuoteSpan) :
    (readings ⟨comments, .errorToken, quoteSpan⟩ 0 source.bytes).filterMap (·.problem)
      = ((readings ⟨comments, .errorToken, quoteSpan⟩ 0 source.bytes).filterMap
          (·.token)).filterMap (Token.problem? source) := by
  have hshown : ∀ p ∈ scan comments 0 source.bytes,
      (p.reading ⟨comments, .errorToken, quoteSpan⟩).problem
        = (p.reading ⟨comments, .errorToken, quoteSpan⟩).token.bind (Token.problem? source) := by
    intro p hp
    obtain ⟨front, rest, hbytes, hstart, hends⟩ := exists_of_mem_scan hp
    obtain ⟨t, htoken⟩ : ∃ t, (p.reading ⟨comments, .errorToken, quoteSpan⟩).token = some t :=
      Option.isSome_iff_exists.mp (token_errorToken p.lexeme)
    rw [htoken, Option.bind_some]
    rw [Placed.reading, hstart, Nat.zero_add] at htoken ⊢
    exact problem_eq_problem? hends hbytes htoken
  rw [readings_errorToken, List.filterMap_map, List.filterMap_map, List.filterMap_filterMap]
  exact List.filterMap_congr hshown

end Lexeme

/-! ### Open block comments come last -/

/-- If only the last entry of a list can be of some kind, then an entry of that kind is the
last one. -/
theorem exists_append_singleton {α : Type} {kind : α → Bool} {entries : List α} {a : α}
    (h : entries.Pairwise fun b _ => kind b = false) (ha : a ∈ entries) (hkind : kind a = true) :
    ∃ front, entries = front ++ [a] ∧ ∀ b ∈ front, kind b = false := by
  obtain ⟨front, later, rfl⟩ := List.append_of_mem ha
  rw [List.pairwise_append, List.pairwise_cons] at h
  obtain ⟨-, ⟨hlater, -⟩, hfront⟩ := h
  cases later with
  | nil => exact ⟨front, rfl, fun b hb => hfront b hb a List.mem_cons_self⟩
  | cons b later =>
      rw [hlater b List.mem_cons_self] at hkind
      cases hkind

variable {source : Source} {comments : Bool} {quoteSpan : QuoteSpan} {problem : Problem}

/-- Only the last problem of a run can be an open block comment, as only the last lexeme can. -/
theorem pairwise_problems (config : Config) (offset : Nat) (bytes : List UInt8) :
    ((Lexeme.readings config offset bytes).filterMap (·.problem)).Pairwise fun problem _ =>
      problem.cause.isUnterminatedComment = false := by
  refine Lexeme.pairwise_readings _ (Lexeme.pairwise_scan_closed config.comments offset bytes) ?_
  intro p q problem later hclosed hproblem _
  rw [Lexeme.isUnterminatedComment_of_problem hproblem]
  exact hclosed

/-- At most one problem of a run is an open block comment: all in front of the last one are not. -/
theorem countP_problems_le_one (config : Config) (offset : Nat) (bytes : List UInt8) :
    ((Lexeme.readings config offset bytes).filterMap (·.problem)).countP
      (·.cause.isUnterminatedComment) ≤ 1 := by
  have hpair := pairwise_problems config offset bytes
  generalize (Lexeme.readings config offset bytes).filterMap (·.problem) = problems at hpair ⊢
  by_cases h : ∃ problem ∈ problems, problem.cause.isUnterminatedComment = true
  · obtain ⟨problem, hmem, hopen⟩ := h
    obtain ⟨front, rfl, hfront⟩ := exists_append_singleton hpair hmem hopen
    have hnone : front.countP (·.cause.isUnterminatedComment) = 0 := by
      rw [List.countP_eq_zero]
      intro other hother
      exact Bool.eq_false_iff.mp (hfront other hother)
    have hlast : [problem].countP (·.cause.isUnterminatedComment) = 1 := by
      rw [List.countP_singleton, if_pos hopen]
    rw [List.countP_append]
    omega
  · have hnone : problems.countP (·.cause.isUnterminatedComment) = 0 := by
      rw [List.countP_eq_zero]
      intro problem hmem hopen
      exact h ⟨problem, hmem, hopen⟩
    rw [hnone]
    exact Nat.zero_le 1

/-- A block comment that is open makes the last token, and it reaches to the end of the source.
The problem and the token have the same span, as they come of one lexeme. -/
theorem getLast?_of_isUnterminatedComment
    (hproblem : problem ∈ (Lexeme.readings ⟨comments, .errorToken, quoteSpan⟩ 0
      source.bytes).filterMap (·.problem))
    (hopen : problem.cause.isUnterminatedComment = true) :
    problem.span.stop = source.size ∧
    ∃ t, ((Lexeme.readings ⟨comments, .errorToken, quoteSpan⟩ 0
        source.bytes).filterMap (·.token)).getLast? = some t ∧
      t.span = problem.span ∧ t.kind = .blockComment := by
  rw [Lexeme.readings_errorToken, List.filterMap_map] at hproblem ⊢
  obtain ⟨⟨start, lexeme⟩, hp, hfound⟩ := List.mem_filterMap.mp hproblem
  have hlast : lexeme.isOpen = true :=
    (Lexeme.isUnterminatedComment_of_problem hfound).symm.trans hopen
  have hstop := Lexeme.stop_of_isOpen hp hlast
  obtain ⟨front, hscan, -⟩ :=
    exists_append_singleton (Lexeme.pairwise_scan_closed comments 0 source.bytes) hp hlast
  rcases Lexeme.problem_readAt_cases hfound with ⟨_, rfl, _⟩ | ⟨isDoc, content, depth, rfl, rfl⟩
  · cases hlast
  · refine ⟨?_, ⟨.comment ⟨.block, isDoc, Text.decode content⟩, _⟩, ?_, rfl, rfl⟩
    · rw [Nat.zero_add, source.length_bytes] at hstop
      exact hstop
    · rw [hscan, List.filterMap_append, List.getLast?_append]
      rfl

/-- The problems of a run in which malformed numbers make tokens: those that its tokens show, in
order, with an open comment at the end if there is one. -/
theorem reports_readings (source : Source) (comments : Bool) (quoteSpan : QuoteSpan) :
    Reports source
      ((Lexeme.readings ⟨comments, .errorToken, quoteSpan⟩ 0 source.bytes).filterMap (·.token))
      ((Lexeme.readings ⟨comments, .errorToken, quoteSpan⟩ 0 source.bytes).filterMap
        (·.problem)) where
  shown := Lexeme.problems_readings_errorToken source comments quoteSpan
  inOrder := inOrder_problems _ 0 source.bytes
  unterminated_le_one := countP_problems_le_one _ 0 source.bytes
  unterminated_last := by
    intro problem hmem hopen
    obtain ⟨hstop, hlast⟩ := getLast?_of_isUnterminatedComment hmem hopen
    obtain ⟨front, hfront, -⟩ := exists_append_singleton (pairwise_problems _ 0 _) hmem hopen
    refine ⟨?_, hstop, hlast⟩
    rw [hfront]
    exact List.getLast?_concat

/-- The problems that a lexer records are those that its tokens show, in the order of the
source. They may be taken between any two tokens: no problem gets lost, no problem is taken
twice, and the tokens are the same. Each request for problems gets a list of its own. Together
with those before, this list gives what is recorded by then where nobody takes any, so that it
holds the problems recorded since the request before. -/
theorem drains_reports (source : Source) (comments : Bool) (quoteSpan : QuoteSpan) :
    ∃ tokens last,
      (Lexer.start source ⟨comments, .errorToken, quoteSpan⟩).drain = .ok (tokens, last) ∧
      Reports source tokens last.problems.toList ∧
      ∀ requests, ∃ served rest,
        (Lexer.start source ⟨comments, .errorToken, quoteSpan⟩).serve requests = .ok served ∧
        served.answers = (List.range (requests.count .token)).map (tokens[·]?) ∧
        served.behind.drain = .ok (tokens.drop (requests.count .token), rest) ∧
        served.taken.flatten ++ rest.problems.toList = last.problems.toList ∧
        served.taken.length = requests.count .problems ∧
        ∀ front later, requests = front ++ .problems :: later →
          ∃ alone, (Lexer.start source ⟨comments, .errorToken, quoteSpan⟩).serve
              (List.replicate (front.count .token) .token) = .ok alone ∧
            (served.taken.take (front.count .problems + 1)).flatten
              = alone.behind.problems.toList := by
  obtain ⟨last, hdrain, -, hproblems, -⟩ :=
    Lexer.drain_start source ⟨comments, .errorToken, quoteSpan⟩
  refine ⟨_, last, hdrain, ?_, ?_⟩
  · rw [hproblems]
    exact reports_readings source comments quoteSpan
  · intro requests
    obtain ⟨served, rest, hserve, hanswers, hrest, htaken⟩ := Lexer.exists_serve hdrain requests
    refine ⟨served, rest, hserve, hanswers, hrest, htaken, Lexer.length_taken_of_serve hserve, ?_⟩
    rintro front later rfl
    exact Lexer.flatten_take_taken hserve

end Lexis
