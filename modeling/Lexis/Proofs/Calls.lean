import Lexis.Proofs.Scan

/-!
# `Lexis.Proofs.Calls`: a lexer asked bit by bit

Draining asks for tokens until there are none, and looks at the problems then. A caller may
as well ask for one token at a time, take the problems that are recorded so far, and go on.
`Lexer.serve` answers such requests in any order. The theorems:

* `Lexer.drain_induction`: what holds of each call of a draining holds of the whole.
* `Lexer.exists_serve`: requests in any order get the tokens of a draining one after the
  other, and the problems that are taken and those left at the end are the ones of a draining.
* `Lexer.flatten_take_taken`: what was taken by some point of the requests is what had been
  recorded by then, so that each request for problems gets those recorded since the one before.

The last one compares a caller who takes problems away with one who asks for tokens only. The two
lexers go the same way and differ in the problems they still hold (`Lexer.withEarlier`).
-/

set_option autoImplicit false

namespace Lexis

/-- What a caller may ask of a lexer. -/
inductive Request where
  /-- The next token. -/
  | token
  /-- The problems recorded since they were asked for last. -/
  | problems
  deriving DecidableEq, Repr

namespace Lexer

/-- What requests came to: the answers to those for a token, the problems taken by the others,
each as the list it got, and the lexer behind them all. -/
structure Served where
  answers : List (Option Token)
  taken : List (List Problem)
  behind : Lexer

/-- The answers to requests, one after the other, each from the lexer that the one before it left.
A request for a token is `Lexer.next`, and one for problems is `Lexer.takeProblems`. -/
def serve (l : Lexer) : List Request → Checked Served
  | [] => .ok ⟨[], [], l⟩
  | .token :: later => do
    let (answer, behind) ← l.next
    let served ← behind.serve later
    return { served with answers := answer :: served.answers }
  | .problems :: later => do
    let (problems, behind) := l.takeProblems
    let served ← behind.serve later
    return { served with taken := problems :: served.taken }

/-- Requests that begin with one for a token: its answer comes before those to the others, which
are put to the lexer behind it. -/
theorem serve_token {l m : Lexer} {answer : Option Token} {served : Served}
    {later : List Request} (hnext : l.next = .ok (answer, m))
    (hserve : m.serve later = .ok served) :
    l.serve (.token :: later) = .ok { served with answers := answer :: served.answers } := by
  rw [serve, hnext]
  show (m.serve later >>= _) = _
  rw [hserve]
  rfl

/-- Requests that begin with one for problems: it gets those recorded by now, and the others are
put to a lexer that has none. -/
theorem serve_problems {l : Lexer} {served : Served} {later : List Request}
    (hserve : l.takeProblems.2.serve later = .ok served) :
    l.serve (.problems :: later)
      = .ok { served with taken := l.problems.toList :: served.taken } := by
  rw [serve]
  show (l.takeProblems.2.serve later >>= _) = _
  rw [hserve]
  rfl

/-- Requests that begin with one for a token were served by asking for it, and then by serving the
others from the lexer behind it. -/
theorem exists_of_serve_token {l : Lexer} {served : Served} {later : List Request}
    (h : l.serve (.token :: later) = .ok served) :
    ∃ answer m rest, l.next = .ok (answer, m) ∧ m.serve later = .ok rest ∧
      served = { rest with answers := answer :: rest.answers } := by
  obtain ⟨⟨answer, m⟩, hnext, h⟩ := Checked.bind_eq_ok_iff.mp h
  obtain ⟨rest, hserve, h⟩ := Checked.bind_eq_ok_iff.mp h
  exact ⟨answer, m, rest, hnext, hserve, (Except.ok.inj h).symm⟩

/-- Requests that begin with one for problems were served by taking them, and then by serving the
others from the lexer without them. -/
theorem exists_of_serve_problems {l : Lexer} {served : Served} {later : List Request}
    (h : l.serve (.problems :: later) = .ok served) :
    ∃ rest, l.takeProblems.2.serve later = .ok rest ∧
      served = { rest with taken := l.problems.toList :: rest.taken } := by
  obtain ⟨rest, hserve, h⟩ := Checked.bind_eq_ok_iff.mp h
  exact ⟨rest, hserve, (Except.ok.inj h).symm⟩

/-! ### The calls of a draining -/

/-- Induction along the calls of a draining: the last one finds no token, and each call before it
finds one. The recursion is on how many bytes are ahead, which every call that finds a token makes
less. -/
theorem drain_induction {motive : Lexer → List Token → Lexer → Prop}
    (none : ∀ l last, l.next = .ok (none, last) → motive l [] last)
    (some : ∀ l m t tokens last, l.next = .ok (some t, m) → m.drain = .ok (tokens, last) →
      motive m tokens last → motive l (t :: tokens) last)
    {l last : Lexer} {tokens : List Token} (h : l.drain = .ok (tokens, last)) :
    motive l tokens last := by
  induction hn : l.rest.length using Nat.strongRecOn generalizing l tokens with
  | ind n ih =>
      subst hn
      obtain ⟨⟨answer, m⟩, hnext⟩ := l.next_eq_ok
      cases answer with
      | none =>
          rw [drain_of_none hnext, Except.ok.injEq, Prod.mk.injEq] at h
          obtain ⟨rfl, rfl⟩ := h
          exact none l m hnext
      | some t =>
          obtain ⟨⟨later, behind⟩, hdrain⟩ := m.drain_eq_ok
          rw [drain_of_some hnext, hdrain, Except.map, Except.ok.injEq, Prod.mk.injEq] at h
          obtain ⟨rfl, rfl⟩ := h
          exact some l m t later behind hnext hdrain (ih _ (length_rest_of_next hnext) hdrain rfl)

/-- The first token of a draining is found by the first call, and the others by the calls behind
it. So a draining with a token in front can be taken apart without looking at how one goes. -/
theorem exists_next_of_drain_cons {l last : Lexer} {t : Token} {tokens : List Token}
    (h : l.drain = .ok (t :: tokens, last)) :
    ∃ m, l.next = .ok (some t, m) ∧ m.drain = .ok (tokens, last) := by
  obtain ⟨⟨answer, m⟩, hnext⟩ := l.next_eq_ok
  cases answer with
  | none =>
      rw [drain_of_none hnext] at h
      cases h
  | some first =>
      obtain ⟨⟨later, behind⟩, hdrain⟩ := m.drain_eq_ok
      rw [drain_of_some hnext, hdrain] at h
      cases h
      exact ⟨m, hnext, hdrain⟩

/-- A lexer that found no token will find none. Either it had finished before, or nothing but
blanks was ahead, or the lexeme ahead made it stop. -/
theorem finished_of_next {l m : Lexer} (h : l.next = .ok (none, m)) : m.finished = true := by
  cases hfinished : l.finished with
  | true =>
      rw [next_of_finished hfinished, Except.ok.injEq, Prod.mk.injEq] at h
      rw [← h.2, hfinished]
  | false =>
      cases hlexeme : l.lexeme? with
      | none =>
          rw [next_of_none hfinished hlexeme, Except.ok.injEq, Prod.mk.injEq] at h
          rw [← h.2]
      | some lexeme =>
          rw [next_of_some hfinished hlexeme, Except.ok.injEq, Prod.mk.injEq] at h
          obtain ⟨htoken, rfl⟩ := h
          rw [record, htoken]
          rfl

/-- A lexer that has finished drains to no tokens and stays as it is. -/
theorem drain_of_finished {l : Lexer} (h : l.finished = true) : l.drain = .ok ([], l) :=
  drain_of_none (next_of_finished h)

/-- Taking the problems away changes no token, and the problems recorded later are the same. Put
behind those that were taken, they are the problems of the draining that nobody interrupted. -/
theorem drain_takeProblems {l last : Lexer} {tokens : List Token}
    (h : l.drain = .ok (tokens, last)) :
    ∃ later, l.takeProblems.2.drain = .ok (tokens, later) ∧
      l.problems.toList ++ later.problems.toList = last.problems.toList := by
  cases hfinished : l.finished with
  | true =>
      rw [drain_of_finished hfinished, Except.ok.injEq, Prod.mk.injEq] at h
      obtain ⟨rfl, rfl⟩ := h
      have htaken : l.takeProblems.2.finished = true := hfinished
      exact ⟨_, drain_of_finished htaken, List.append_nil _⟩
  | false =>
      -- What is ahead depends on no problems, and each run records its own behind those it had.
      have htaken : l.takeProblems.2.finished = false := hfinished
      have hahead : l.takeProblems.2.ahead = l.ahead := rfl
      obtain ⟨behind, hdrain, -, hproblems, -⟩ := drain_of_ahead hfinished rfl
      obtain ⟨later, hlater, -, hproblems', -⟩ := drain_of_ahead htaken hahead
      rw [h, Except.ok.injEq, Prod.mk.injEq] at hdrain
      obtain ⟨rfl, rfl⟩ := hdrain
      exact ⟨later, hlater, by rw [hproblems, hproblems']; rfl⟩

/-- Requests in any order get the tokens of a draining, one after the other and none behind the
last. What they leave gives the other tokens. The problems that were taken, and those left at the
end, are the problems of the draining. The induction is on the requests, for any lexer: one for a
token takes the first call off the draining, and one for problems leaves its tokens as they are. -/
theorem exists_serve {l last : Lexer} {tokens : List Token} (h : l.drain = .ok (tokens, last))
    (requests : List Request) :
    ∃ served rest, l.serve requests = .ok served ∧
      served.answers = (List.range (requests.count .token)).map (tokens[·]?) ∧
      served.behind.drain = .ok (tokens.drop (requests.count .token), rest) ∧
      served.taken.flatten ++ rest.problems.toList = last.problems.toList := by
  induction requests generalizing l last tokens with
  | nil => exact ⟨_, last, rfl, rfl, h, rfl⟩
  | cons request later ih =>
      cases request with
      | problems =>
          obtain ⟨behind, hbehind, hproblems⟩ := drain_takeProblems h
          obtain ⟨served, rest, hserve, hanswers, hdrain, htaken⟩ := ih hbehind
          refine ⟨_, rest, serve_problems hserve, hanswers, hdrain, ?_⟩
          rw [List.flatten_cons, List.append_assoc, htaken, hproblems]
      | token =>
          rw [List.count_cons_self, List.range_succ_eq_map, List.map_cons, List.map_map]
          obtain ⟨⟨answer, m⟩, hnext⟩ := l.next_eq_ok
          cases answer with
          | none =>
              rw [drain_of_none hnext, Except.ok.injEq, Prod.mk.injEq] at h
              obtain ⟨rfl, rfl⟩ := h
              obtain ⟨served, rest, hserve, hanswers, hdrain, htaken⟩ :=
                ih (drain_of_finished (finished_of_next hnext))
              rw [List.drop_nil] at hdrain ⊢
              refine ⟨_, rest, serve_token hnext hserve, ?_, hdrain, htaken⟩
              rw [hanswers]
              rfl
          | some t =>
              obtain ⟨⟨tokens', behind⟩, hdrain'⟩ := m.drain_eq_ok
              rw [drain_of_some hnext, hdrain', Except.map, Except.ok.injEq, Prod.mk.injEq] at h
              obtain ⟨rfl, rfl⟩ := h
              obtain ⟨served, rest, hserve, hanswers, hdrain, htaken⟩ := ih hdrain'
              refine ⟨_, rest, serve_token hnext hserve, ?_, hdrain, htaken⟩
              rw [hanswers]
              rfl

/-! ### What a request for problems gets -/

/-- The lexer as it would be with `earlier` recorded before its own problems. It stands for a
lexer that nobody took these problems from. -/
def withEarlier (l : Lexer) (earlier : Array Problem) : Lexer :=
  { l with problems := earlier ++ l.problems }

/-- The problems that were taken away, put back in front, give the lexer from before. -/
theorem withEarlier_takeProblems (l : Lexer) : l.takeProblems.2.withEarlier l.problems = l :=
  ext rfl rfl rfl rfl Array.append_empty

/-- A problem is recorded behind all others, so that it makes no difference whether earlier ones
were put back before or after. -/
theorem withEarlier_record (l : Lexer) (reading : Reading) (earlier : Array Problem) :
    (l.record reading).withEarlier earlier = (l.withEarlier earlier).record reading := by
  refine ext rfl rfl rfl rfl ?_
  cases hproblem : reading.problem <;> simp [withEarlier, record, hproblem]

/-- Asking for a token does not look at the recorded problems. It leaves them in front of the one
that it may record itself, whoever recorded them. -/
theorem next_withEarlier {l m : Lexer} {answer : Option Token} (h : l.next = .ok (answer, m))
    (earlier : Array Problem) :
    (l.withEarlier earlier).next = .ok (answer, m.withEarlier earlier) := by
  cases hfinished : l.finished with
  | true =>
      rw [next_of_finished hfinished] at h
      cases h
      exact next_of_finished hfinished
  | false =>
      have hopen : (l.withEarlier earlier).finished = false := hfinished
      -- The bytes ahead and the choices are the same on both sides, and so is the lexeme.
      cases hlexeme : l.lexeme? with
      | none =>
          rw [next_of_none hfinished hlexeme] at h
          cases h
          exact next_of_none hopen hlexeme
      | some lexeme =>
          rw [next_of_some hfinished hlexeme] at h
          cases h
          rw [withEarlier_record]
          exact next_of_some hopen hlexeme

/-- Requests for tokens alone are served the same way, and the problems recorded earlier are still
there behind them. -/
theorem serve_withEarlier {l : Lexer} {k : Nat} {served : Served}
    (h : l.serve (List.replicate k .token) = .ok served) (earlier : Array Problem) :
    (l.withEarlier earlier).serve (List.replicate k .token)
      = .ok { served with behind := served.behind.withEarlier earlier } := by
  induction k generalizing l served with
  | zero =>
      cases h
      rfl
  | succ k ih =>
      obtain ⟨answer, m, later, hnext, hlater, rfl⟩ := exists_of_serve_token h
      exact serve_token (next_withEarlier hnext earlier) (ih hlater)

/-- Each request for problems gets a list, which may be empty. -/
theorem length_taken_of_serve {l : Lexer} {requests : List Request} {served : Served}
    (h : l.serve requests = .ok served) :
    served.taken.length = requests.count .problems := by
  induction requests generalizing l served with
  | nil =>
      cases h
      rfl
  | cons request later ih =>
      cases request with
      | token =>
          obtain ⟨answer, m, rest, -, hlater, rfl⟩ := exists_of_serve_token h
          simpa using ih hlater
      | problems =>
          obtain ⟨rest, hlater, rfl⟩ := exists_of_serve_problems h
          simpa using ih hlater

/-- What was taken up to and including some request for problems is what a caller finds recorded
who has asked for as many tokens by then and has taken nothing. So the request itself gets the
problems recorded since the one before it, and all of them. The induction is on the requests in
front: a token moves both callers on, and problems that the first caller takes on the way stay
with the second one (`withEarlier`). -/
theorem flatten_take_taken {l : Lexer} {front later : List Request} {served : Served}
    (h : l.serve (front ++ .problems :: later) = .ok served) :
    ∃ alone, l.serve (List.replicate (front.count .token) .token) = .ok alone ∧
      (served.taken.take (front.count .problems + 1)).flatten
        = alone.behind.problems.toList := by
  induction front generalizing l served with
  | nil =>
      obtain ⟨rest, -, rfl⟩ := exists_of_serve_problems h
      refine ⟨⟨[], [], l⟩, rfl, ?_⟩
      simp
  | cons request front ih =>
      cases request with
      | token =>
          obtain ⟨answer, m, rest, hnext, hlater, rfl⟩ := exists_of_serve_token h
          obtain ⟨alone, halone, htaken⟩ := ih hlater
          rw [List.count_cons_self, List.replicate_succ]
          refine ⟨_, serve_token hnext halone, ?_⟩
          simpa using htaken
      | problems =>
          obtain ⟨rest, hlater, rfl⟩ := exists_of_serve_problems h
          obtain ⟨alone, halone, htaken⟩ := ih hlater
          -- The second caller still has the problems that the first one took here.
          have hkept : l.serve (List.replicate (front.count .token) .token) = _ :=
            withEarlier_takeProblems l ▸ serve_withEarlier halone l.problems
          rw [List.count_cons_of_ne (by decide)]
          refine ⟨_, hkept, ?_⟩
          simp [withEarlier, htaken]

/-- Requests for tokens take no problems away, so that all that is recorded on the way is still
there behind them. -/
theorem taken_of_serve_replicate {l : Lexer} {k : Nat} {served : Served}
    (h : l.serve (List.replicate k .token) = .ok served) : served.taken = [] := by
  have hnone : (List.replicate k Request.token).count .problems = 0 := by
    rw [List.count_replicate, if_neg (by decide)]
  exact List.eq_nil_of_length_eq_zero ((length_taken_of_serve h).trans hnone)

end Lexer

end Lexis
