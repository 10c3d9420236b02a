import Lexis.Proofs.Calls
import Lexis.TokenStream

/-!
# `Lexis.Proofs.StreamCursor`: the cursor of a token stream

A stream keeps its tokens in one list and counts how many of them stand before the cursor. A
zipper keeps the tokens before the cursor apart from those after it and counts nothing. A caller
who moves the cursor to and fro cannot tell the two apart. The theorems:

* `TokenStream.Shows.walk`: moves in any order get the same answers from a stream and from the
  zipper that it shows.
* `TokenStream.ofLexer_walks`: so do the moves on the stream of a lexer, which holds the tokens
  that the lexer was not asked for yet, and all of its problems.
* `TokenStream.walk_there_and_back`: where the cursor stands after some steps forth and as many
  back. It is where it was unless a step forth found no token.
-/

set_option autoImplicit false

namespace Lexis

/-! ### Moves -/

/-- What a caller may do with a stream of tokens. -/
inductive Move where
  /-- Take the token after the cursor. -/
  | next
  /-- Take the token before the cursor. -/
  | prev
  /-- Look at the token after the cursor. -/
  | peek
  /-- Go to the start. -/
  | reset
  /-- Leave the comments out, and go to the start. -/
  | withoutTrivia
  deriving DecidableEq, Repr

/-- The answers to moves that are made one after the other, and what is behind them. -/
def Move.walk {σ : Type} (answer : σ → Move → Option Token × σ) (state : σ) :
    List Move → List (Option Token) × σ
  | [] => ([], state)
  | move :: later =>
    let (token, behind) := answer state move
    let (tokens, last) := walk answer behind later
    (token :: tokens, last)

/-- The tokens before a cursor and those after it, both in the order of the source. Nothing is
counted here, so no position can be wrong. -/
structure Zipper where
  before : List Token
  after : List Token
  deriving DecidableEq, Repr

namespace Zipper

/-- The cursor at the start of the tokens. -/
def atStart (tokens : List Token) : Zipper := ⟨[], tokens⟩

/-- The tokens on either side of the cursor. -/
def tokens (z : Zipper) : List Token := z.before ++ z.after

/-- The first token after the cursor goes over to those before it. -/
def next (z : Zipper) : Option Token × Zipper :=
  match z.after with
  | [] => (none, z)
  | t :: after => (some t, ⟨z.before ++ [t], after⟩)

/-- The last token before the cursor goes over to those after it. -/
def prev (z : Zipper) : Option Token × Zipper :=
  match z.before.getLast? with
  | none => (none, z)
  | some t => (some t, ⟨z.before.dropLast, t :: z.after⟩)

/-- Going back takes the last token from those before the cursor, and puts it in front of those
after it. -/
theorem prev_concat (front : List Token) (t : Token) (after : List Token) :
    prev ⟨front ++ [t], after⟩ = (some t, ⟨front, t :: after⟩) := by
  have hlast : (front ++ [t]).getLast? = some t := List.getLast?_concat
  simp only [prev, hlast, List.dropLast_concat]

/-- What is answered to a move, and the zipper behind it. -/
def answer (z : Zipper) : Move → Option Token × Zipper
  | .next => z.next
  | .prev => z.prev
  | .peek => (z.after.head?, z)
  | .reset => (none, atStart z.tokens)
  | .withoutTrivia => (none, atStart (z.tokens.filter fun t => !t.payload.isComment))

/-- The answers to moves, and the zipper behind them. -/
def walk (z : Zipper) (moves : List Move) : List (Option Token) × Zipper :=
  Move.walk answer z moves

end Zipper

namespace TokenStream

/-- What is answered to a move, and the stream behind it. -/
def answer (s : TokenStream) : Move → Option Token × TokenStream
  | .next => s.next
  | .prev => s.prev
  | .peek => (s.peek, s)
  | .reset => (none, s.reset)
  | .withoutTrivia => (none, s.withoutTrivia)

/-- The answers to moves, and the stream behind them. -/
def walk (s : TokenStream) (moves : List Move) : List (Option Token) × TokenStream :=
  Move.walk answer s moves

/-- A row of moves is the first of them and then the others. -/
theorem walk_cons (s : TokenStream) (move : Move) (later : List Move) :
    s.walk (move :: later)
      = ((s.answer move).1 :: ((s.answer move).2.walk later).1,
        ((s.answer move).2.walk later).2) := rfl

/-- Where no token is ahead the stream stays as it is, so that a step forth at the end is no step.
-/
theorem next_of_peek_none {s : TokenStream} (h : s.peek = none) : s.next = (none, s) := by
  rw [next, h]

/-- A token that is ahead is the answer, and the cursor goes behind it. -/
theorem next_of_peek_some {s : TokenStream} {t : Token} (h : s.peek = some t) :
    s.next = (some t, { s with position := s.position + 1 }) := by
  rw [next, h]

/-! ### A stream and a zipper -/

/-- The stream has the tokens of the zipper, and as many of them stand before its cursor. What
else a stream holds, its problems, no move looks at. -/
structure Shows (s : TokenStream) (z : Zipper) : Prop where
  tokens_eq : s.tokens = z.tokens
  position_eq : s.position = z.before.length

namespace Shows

variable {s : TokenStream} {z : Zipper}

/-- The cursor is never behind the last token. -/
theorem position_le (h : s.Shows z) : s.position ≤ s.length := by
  rw [h.position_eq, length, h.tokens_eq, Zipper.tokens, List.length_append]
  exact Nat.le_add_right _ _

/-- A look ahead gives the first token after the cursor. -/
theorem peek (h : s.Shows z) : s.peek = z.after.head? := by
  rw [TokenStream.peek, h.tokens_eq, h.position_eq, Zipper.tokens,
    List.getElem?_append_right (Nat.le_refl _), Nat.sub_self, List.head?_eq_getElem?]

/-- A step forth gives the same token, and leads to the same place. At the end both stay, and
neither gives a token. -/
theorem next (h : s.Shows z) : s.next.1 = z.next.1 ∧ s.next.2.Shows z.next.2 := by
  obtain ⟨before, after⟩ := z
  cases after with
  | nil =>
      rw [next_of_peek_none h.peek]
      exact ⟨rfl, h⟩
  | cons t after =>
      rw [next_of_peek_some h.peek]
      refine ⟨rfl, ?_, ?_⟩
      · rw [h.tokens_eq]
        exact List.append_cons before t after
      · show s.position + 1 = (before ++ [t]).length
        rw [h.position_eq, List.length_append]
        rfl

/-- A step back gives the same token, and leads to the same place. At the start both stay, and
neither gives a token. -/
theorem prev (h : s.Shows z) : s.prev.1 = z.prev.1 ∧ s.prev.2.Shows z.prev.2 := by
  obtain ⟨before, after⟩ := z
  obtain ⟨tokens, problems, position⟩ := s
  obtain ⟨htokens, hposition⟩ := h
  obtain rfl : tokens = before ++ after := htokens
  obtain rfl : position = before.length := hposition
  -- The zipper asks for the last token before the cursor, the stream for the one its count
  -- leads to.
  rcases List.eq_nil_or_concat before with rfl | ⟨front, t, hbefore⟩
  · exact ⟨rfl, rfl, rfl⟩
  · obtain rfl : before = front ++ [t] := hbefore.trans List.concat_eq_append
    have hlength : (front ++ [t]).length = front.length + 1 := by simp
    have hat : (front ++ [t] ++ after)[front.length]? = some t := by simp
    rw [Zipper.prev_concat, hlength]
    exact ⟨hat, (List.append_cons front t after).symm, rfl⟩

/-- A stream at the start of its tokens. -/
theorem atStart (tokens : List Token) (problems : List Problem) :
    (⟨tokens, problems, 0⟩ : TokenStream).Shows (Zipper.atStart tokens) := ⟨rfl, rfl⟩

/-- One move gets the same answer from the stream as from the zipper, and behind it the one
shows the other again. -/
theorem answer (h : s.Shows z) (move : Move) :
    (s.answer move).1 = (z.answer move).1 ∧ (s.answer move).2.Shows (z.answer move).2 := by
  cases move with
  | next => exact h.next
  | prev => exact h.prev
  | peek => exact ⟨h.peek, h⟩
  | reset => exact ⟨rfl, h.tokens_eq, rfl⟩
  | withoutTrivia =>
      refine ⟨rfl, ?_, rfl⟩
      show s.tokens.filter _ = z.tokens.filter _
      rw [h.tokens_eq]
      rfl

/-- So do moves in any order, by induction on the moves. -/
theorem walk (h : s.Shows z) (moves : List Move) :
    (s.walk moves).1 = (z.walk moves).1 ∧ (s.walk moves).2.Shows (z.walk moves).2 := by
  induction moves generalizing s z with
  | nil => exact ⟨rfl, h⟩
  | cons move later ih =>
      obtain ⟨hanswer, hbehind⟩ := h.answer move
      obtain ⟨hanswers, hlast⟩ := ih hbehind
      rw [walk_cons, hanswer, hanswers]
      exact ⟨rfl, hlast⟩

end Shows

/-- No move changes the problems, not even leaving out the comments. -/
theorem problems_answer (s : TokenStream) (move : Move) :
    (s.answer move).2.problems = s.problems := by
  cases move with
  | next =>
      show s.next.2.problems = _
      rw [next]
      cases s.peek <;> rfl
  | prev =>
      show s.prev.2.problems = _
      rw [prev]
      cases s.position <;> rfl
  | _ => rfl

/-- Nor do any moves in a row. -/
theorem problems_walk (s : TokenStream) (moves : List Move) :
    (s.walk moves).2.problems = s.problems := by
  induction moves generalizing s with
  | nil => rfl
  | cons move later ih => exact (ih _).trans (s.problems_answer move)

/-! ### The stream of a lexer -/

/-- The stream of a lexer holds what draining it gives, with the cursor at the start. The lexer
may have been asked for tokens before, and these are not in the stream. -/
theorem ofLexer_of_drain {l last : Lexer} {tokens : List Token}
    (h : l.drain = .ok (tokens, last)) :
    ofLexer l = .ok ⟨tokens, last.problems.toList, 0⟩ := by
  rw [ofLexer, h]
  rfl

/-- The stream of a lexer that was asked for `k` tokens holds the tokens behind these, and all
problems, those of the tokens that it does not hold among them. Moves in any order get the answers
of a zipper that starts with the same tokens, and the cursor stays within them. -/
theorem ofLexer_walks (l : Lexer) :
    ∃ tokens last, l.drain = .ok (tokens, last) ∧
      ∀ k, ∃ served stream, l.serve (List.replicate k .token) = .ok served ∧
        ofLexer served.behind = .ok stream ∧
        stream = ⟨tokens.drop k, last.problems.toList, 0⟩ ∧
        ∀ moves,
          (stream.walk moves).1 = ((Zipper.atStart (tokens.drop k)).walk moves).1 ∧
          (stream.walk moves).2.Shows ((Zipper.atStart (tokens.drop k)).walk moves).2 ∧
          (stream.walk moves).2.problems = last.problems.toList ∧
          (stream.walk moves).2.position ≤ (stream.walk moves).2.length := by
  obtain ⟨⟨tokens, last⟩, hdrain⟩ := l.drain_eq_ok
  refine ⟨tokens, last, hdrain, ?_⟩
  intro k
  obtain ⟨served, rest, hserve, -, hrest, hproblems⟩ :=
    Lexer.exists_serve hdrain (List.replicate k .token)
  -- Nobody took problems away, so that all of them are left.
  have htaken : served.taken = [] := Lexer.taken_of_serve_replicate hserve
  rw [htaken, List.flatten_nil, List.nil_append] at hproblems
  rw [List.count_replicate_self] at hrest
  refine ⟨served, _, hserve, ofLexer_of_drain hrest, by rw [hproblems], ?_⟩
  intro moves
  obtain ⟨hanswers, hshows⟩ := (Shows.atStart (tokens.drop k) rest.problems.toList).walk moves
  exact ⟨hanswers, hshows, (problems_walk _ moves).trans hproblems, hshows.position_le⟩

/-! ### There and back -/

/-- Steps forth give the tokens after the cursor, and none behind the last. The cursor does not go
past the end, and a step at the end does not count. -/
theorem walk_next {s : TokenStream} (h : s.position ≤ s.length) (n : Nat) :
    s.walk (List.replicate n .next)
      = ((List.range n).map fun i => s.tokens[s.position + i]?,
        { s with position := min (s.position + n) s.length }) := by
  induction n generalizing s with
  | zero =>
      rw [Nat.add_zero, Nat.min_eq_left h]
      rfl
  | succ n ih =>
      rw [List.replicate_succ, walk_cons, List.range_succ_eq_map, List.map_cons, List.map_map]
      show (s.next.1 :: (s.next.2.walk _).1, (s.next.2.walk _).2) = _
      cases hpeek : s.peek with
      | none =>
          -- The cursor is at the end, and there it stays.
          have hend (i : Nat) : s.length ≤ s.position + i :=
            Nat.le_trans (List.getElem?_eq_none_iff.mp hpeek) (Nat.le_add_right _ i)
          have hnone (i : Nat) : s.tokens[s.position + i]? = none :=
            List.getElem?_eq_none_iff.mpr (hend i)
          rw [next_of_peek_none hpeek, ih h]
          simp only [hnone, Function.comp_def, Nat.min_eq_right (hend _)]
      | some t =>
          have hlt : s.position < s.length := (List.getElem?_eq_some_iff.mp hpeek).1
          have hnext : s.position + 1 ≤ s.length := hlt
          have hat : s.tokens[s.position + 0]? = some t := hpeek
          rw [next_of_peek_some hpeek, ih hnext, hat]
          simp only [Function.comp_def, length, Nat.add_assoc, Nat.succ_eq_add_one, Nat.add_comm 1]

/-- Steps back move the cursor as far as the start. As differences of numbers do, its position
stops at zero. -/
theorem walk_prev (s : TokenStream) (n : Nat) :
    (s.walk (List.replicate n .prev)).2 = { s with position := s.position - n } := by
  induction n generalizing s with
  | zero => rfl
  | succ n ih =>
      rw [List.replicate_succ, walk_cons]
      show (s.prev.2.walk _).2 = _
      obtain ⟨tokens, problems, position⟩ := s
      cases position with
      | zero =>
          show ((⟨tokens, problems, 0⟩ : TokenStream).walk _).2 = ⟨tokens, problems, _⟩
          rw [ih, Nat.zero_sub, Nat.zero_sub]
      | succ position =>
          show ((⟨tokens, problems, position⟩ : TokenStream).walk _).2 = ⟨tokens, problems, _⟩
          rw [ih, Nat.add_sub_add_right]

/-- All steps forth find a token if there are as many tokens after the cursor, and only then. The
bound on the position (`h`) holds wherever a stream can get to. -/
theorem isSome_walk_next_iff {s : TokenStream} (h : s.position ≤ s.length) (n : Nat) :
    (∀ found ∈ (s.walk (List.replicate n .next)).1, found.isSome = true)
      ↔ s.position + n ≤ s.length := by
  rw [walk_next h, List.forall_mem_map]
  simp only [List.mem_range, isSome_getElem?]
  show (∀ i, i < n → s.position + i < s.length) ↔ _
  constructor
  · intro hall
    cases n with
    | zero => exact h
    | succ n => exact hall n (Nat.lt_succ_self n)
  · intro hle i hi
    exact Nat.lt_of_lt_of_le (Nat.add_lt_add_left hi _) hle

/-- Where the cursor of a stream is after `n` steps forth and `n` steps back, from wherever moves
in any order have led it. It is where it was, with the same token after it, if every step forth
found a token, or if it was at the start. Otherwise it is further in front: each step forth that
was made at the end is a step back too many. -/
theorem walk_there_and_back (tokens : List Token) (problems : List Problem) (moves : List Move)
    (n : Nat) :
    let here := ((⟨tokens, problems, 0⟩ : TokenStream).walk moves).2
    let there := here.walk (List.replicate n .next)
    let back := (there.2.walk (List.replicate n .prev)).2
    back = { here with position := min (here.position + n) here.length - n } ∧
    (back.position = here.position ∧ back.peek = here.peek
      ↔ (∀ found ∈ there.1, found.isSome = true) ∨ here.position = 0) := by
  intro here there back
  have hle : here.position ≤ here.length :=
    ((Shows.atStart tokens problems).walk moves).2.position_le
  have hback : back = { here with position := min (here.position + n) here.length - n } := by
    show (there.2.walk _).2 = _
    rw [walk_prev, show there = _ from walk_next hle n]
  refine ⟨hback, ?_⟩
  rw [show (∀ found ∈ there.1, found.isSome = true) ↔ _ from isSome_walk_next_iff hle n]
  constructor
  · rintro ⟨hposition, -⟩
    rw [hback] at hposition
    have hposition : min (here.position + n) here.length - n = here.position := hposition
    omega
  · intro h
    have hposition : min (here.position + n) here.length - n = here.position := by omega
    rw [hposition] at hback
    rw [hback]
    exact ⟨rfl, rfl⟩

/-- A source of one letter. -/
def loneLetter : Source := ⟨"a", _, rfl, by decide⟩

/-- Behind the only token the cursor is at the end. A step forth finds nothing there, and the step
back after it leads to the start. -/
theorem walk_there_and_back_at_end :
    ∃ s, ofLexer (Lexer.start loneLetter {}) = .ok s ∧
      let here := (s.walk [.next]).2
      let there := here.walk (List.replicate 1 .next)
      let back := (there.2.walk (List.replicate 1 .prev)).2
      here.position = 1 ∧ here.peek = none ∧ there.1 = [none] ∧
      back.position = 0 ∧ back.peek = some ⟨.ident "a", ⟨0, 1⟩⟩ := by
  obtain ⟨last, hdrain⟩ : ∃ last,
      (Lexer.start loneLetter {}).drain = .ok ([⟨.ident "a", ⟨0, 1⟩⟩], last) :=
    ⟨_, (Lexer.drain_of_some rfl).trans (congrArg _ (Lexer.drain_of_none rfl))⟩
  exact ⟨_, ofLexer_of_drain hdrain, rfl, rfl, rfl, rfl, rfl⟩

end TokenStream

end Lexis
