import Lexis.Proofs.Calls
import Lexis.Proofs.Resynchronization

/-!
# `Lexis.Proofs.Progress`: a lexer under any use

Between the tokens that it asks for, a caller may look ahead and move the cursor as it likes,
into the middle of a token or of a character, or past the end of the source. `Lexer.converse`
makes such calls in a row, and keeps what each of them did. The theorems:

* `Lexer.respond_cases`: what one call can do to a lexer.
* `Lexer.conversation_of_converse`: calls in a row are such steps in a row.
* `Lexer.converse_progress`: no call moves the cursor back, each token moves it on and not past
  the end, and once there was no token there is none any more.
-/

set_option autoImplicit false

namespace Lexis

/-- What a caller may do with a lexer. These are all of its public operations, and a predicate
that is handed over may keep a state of any type. -/
inductive Call : Type 1 where
  /-- Ask for the next token. -/
  | next
  /-- Move over the next byte. -/
  | advance
  /-- Move over `n` bytes. -/
  | consume (n : Nat)
  /-- Look at the next byte. -/
  | peek
  /-- Look at the byte that stands `n` bytes ahead. -/
  | peekAt (n : Nat)
  /-- Ask whether a byte is left. -/
  | isAtEnd
  /-- Move over the bytes that a predicate accepts, which has a state of its own. -/
  | collectWhile {σ : Type} (ask : σ → UInt8 → Bool × σ) (state : σ)
  /-- Take the span of the bytes before the cursor. -/
  | spanBefore (length : Nat)
  /-- Look at the problems. -/
  | problems
  /-- Take the problems away. -/
  | takeProblems

/-- What a lexer answers to a call. -/
inductive Answer where
  | token (token : Option Token)
  | byte (byte : Option UInt8)
  | atEnd (atEnd : Bool)
  | collected (atEnd : Bool) (text : String)
  | span (span : Span)
  | problems (problems : List Problem)
  | moved
  deriving DecidableEq, Repr

/-- A call as seen from outside: the answer, and the lexer before and after it. -/
structure Exchange where
  before : Lexer
  answer : Answer
  after : Lexer

/-- The token that was found, if the call was for one. -/
def Exchange.token? (e : Exchange) : Option Token :=
  match e.answer with
  | .token found => found
  | _ => none

/-- A call found a token when that is what was answered. -/
theorem Exchange.token?_eq_some_iff {e : Exchange} {t : Token} :
    e.token? = some t ↔ e.answer = .token (some t) := by
  unfold token?
  cases e.answer <;> simp

namespace Lexer

/-- The answer to a call, and the lexer behind it. -/
def respond (l : Lexer) : Call → Checked (Answer × Lexer)
  | .next => do
    let (token, behind) ← l.next
    return (.token token, behind)
  | .advance => do
    let (byte, behind) ← l.advance
    return (.byte byte, behind)
  | .consume n => do return (.moved, ← l.consume n)
  | .peek => do return (.byte (← l.peek), l)
  | .peekAt n => do return (.byte (← l.peekAt n), l)
  | .isAtEnd => return (.atEnd l.isAtEnd, l)
  | .collectWhile ask state => do
    let collected ← l.collectWhile ask state
    return (.collected collected.atEnd collected.text, collected.lexer)
  | .spanBefore length => do return (.span (← l.spanBefore length), l)
  | .problems => return (.problems l.problems.toList, l)
  | .takeProblems =>
    let (problems, behind) := l.takeProblems
    return (.problems problems, behind)

/-- What calls did one after the other, and the lexer behind them. A call without an answer
ends them all without one. -/
def converse (l : Lexer) : List Call → Checked (List Exchange × Lexer)
  | [] => .ok ([], l)
  | call :: later => do
    let (answer, after) ← l.respond call
    let (exchanges, behind) ← after.converse later
    return (⟨l, answer, after⟩ :: exchanges, behind)

/-! ### One call -/

/-- `m` lexes the source of `l` as `l` does, from where `l` stands or from further on. -/
structure Follows (l m : Lexer) : Prop where
  source_eq : m.source = l.source
  config_eq : m.config = l.config
  offset_le : l.offset ≤ m.offset

/-- A lexer follows itself. -/
theorem Follows.refl (l : Lexer) : Follows l l := ⟨rfl, rfl, Nat.le_refl _⟩

/-- What follows one that follows a lexer follows the lexer. So a row of calls can be taken as
one. -/
theorem Follows.trans {l m n : Lexer} (h : Follows l m) (h' : Follows m n) : Follows l n where
  source_eq := h'.source_eq.trans h.source_eq
  config_eq := h'.config_eq.trans h.config_eq
  offset_le := Nat.le_trans h.offset_le h'.offset_le

/-- Why a call that led from `l` to `m` found no token when none had failed before: nothing is
ahead of `m`, or a malformed number was suppressed, and recorded just then. In the second case
bytes may be left, and still no token is found in them. -/
def Exhausts (source : Source) (config : Config) (l m : Lexer) : Prop :=
  source.size ≤ m.offset ∨
    config.malformedNumber = .suppress ∧ ∃ literal span,
      m.problems.toList = l.problems.toList ++ [⟨.malformedNumber literal, span⟩]

/-- What a call with an answer did, apart from moving the cursor. There are four kinds, and each
says whether the lexer had finished before the call, and whether it has behind it. -/
inductive Did (l m : Lexer) : Answer → Prop where
  /-- It found a token in the source. -/
  | found (t : Token) : l.finished = false → m.finished = false → l.offset < m.offset →
      m.offset ≤ l.source.size → Did l m (.token (some t))
  /-- It was the first to find none. -/
  | exhausted : l.finished = false → m.finished = true → Exhausts l.source l.config l m →
      Did l m (.token none)
  /-- It found none because an earlier one did not. -/
  | again : l.finished = true → m = l → Did l m (.token none)
  /-- It did not ask for a token. -/
  | other (answer : Answer) : (∀ token, answer ≠ .token token) → m.finished = l.finished →
      Did l m answer

/-- Moving over bytes leads on in the same source, and finishes nothing. -/
theorem consume_cases {l m : Lexer} {n : Nat} (h : l.consume n = .ok m) :
    Follows l m ∧ m.finished = l.finished := by
  rw [consume] at h
  split at h
  · cases h
    exact ⟨⟨rfl, rfl, Nat.le_add_right _ _⟩, rfl⟩
  · cases h

/-- So does moving over the next byte, which at the end does not move. -/
theorem advance_cases {l m : Lexer} {byte : Option UInt8} (h : l.advance = .ok (byte, m)) :
    Follows l m ∧ m.finished = l.finished := by
  obtain ⟨head, -, h⟩ := Checked.bind_eq_ok_iff.mp h
  cases head with
  | none =>
      cases h
      exact ⟨.refl l, rfl⟩
  | some b =>
      obtain ⟨behind, hbehind, h⟩ := Checked.bind_eq_ok_iff.mp h
      cases h
      exact consume_cases hbehind

/-- So does collecting bytes, whatever the predicate accepts. -/
theorem collectWhile_cases {σ : Type} {l : Lexer} {ask : σ → UInt8 → Bool × σ} {state : σ}
    {collected : Collected σ} (h : l.collectWhile ask state = .ok collected) :
    Follows l collected.lexer ∧ collected.lexer.finished = l.finished := by
  rw [collectWhile] at h
  split at h
  · cases h
  · obtain ⟨behind, hbehind, h⟩ := Checked.bind_eq_ok_iff.mp h
    cases h
    exact consume_cases hbehind

/-- What asking for a token can do: any of `Did.found`, `Did.exhausted` and `Did.again`, and in
each case the lexer goes on and not back. -/
theorem next_cases {l m : Lexer} {token : Option Token} (h : l.next = .ok (token, m)) :
    Follows l m ∧ Did l m (.token token) := by
  cases hfinished : l.finished with
  | true =>
      rw [next_of_finished hfinished] at h
      cases h
      exact ⟨.refl l, .again hfinished rfl⟩
  | false =>
      have hskip : l.offset ≤ l.skipBlanks.offset := Nat.le_add_right _ _
      have hahead : l.skipBlanks.rest.length = l.source.size - l.skipBlanks.offset :=
        l.skipBlanks.length_rest
      cases hlexeme : l.lexeme? with
      | none =>
          rw [next_of_none hfinished hlexeme] at h
          cases h
          -- Only where no byte is left is there no lexeme behind the blanks.
          rw [Lexeme.ofBytes?_eq_none_iff.mp hlexeme] at hahead
          have hend : l.source.size ≤ l.skipBlanks.offset := Nat.sub_eq_zero_iff_le.mp hahead.symm
          exact ⟨⟨rfl, rfl, hskip⟩, .exhausted hfinished rfl (.inl hend)⟩
      | some lexeme =>
          rw [next_of_some hfinished hlexeme] at h
          cases h
          refine ⟨⟨rfl, rfl, Nat.le_trans hskip (Nat.le_add_right _ _)⟩, ?_⟩
          cases htoken : (lexeme.readAt l.config l.skipBlanks.offset).token with
          | none =>
              refine .exhausted hfinished (by rw [record, htoken]; rfl) (.inr ?_)
              obtain ⟨hmode, literal, span, hproblem⟩ := Lexeme.malformed_of_token_eq_none htoken
              rw [problems_record, hproblem]
              exact ⟨hmode, literal, span, rfl⟩
          | some t =>
              -- The whole lexeme is moved over, which is not empty and lies in the source.
              have hadvance : (lexeme.readAt l.config l.skipBlanks.offset).advance = lexeme.width :=
                Lexeme.advance_readAt (by rw [htoken]; rfl)
              have hpos : 0 < lexeme.width := Lexeme.length_spelling_pos hlexeme
              have hwidth : lexeme.width ≤ l.skipBlanks.rest.length :=
                (Lexeme.spelling_isPrefix hlexeme).length_le
              refine .found t hfinished (by rw [record, htoken]; rfl) ?_ ?_
              · show l.offset < l.skipBlanks.offset + _
                rw [hadvance]
                omega
              · show l.skipBlanks.offset + _ ≤ _
                rw [hadvance]
                omega

/-- What one call can do to a lexer: it moves it on, and only asking for a token finishes it. All
that is said about conversations is derived from this. -/
theorem respond_cases {l m : Lexer} {call : Call} {answer : Answer}
    (h : l.respond call = .ok (answer, m)) : Follows l m ∧ Did l m answer := by
  have hother {answer : Answer} {m : Lexer} (hanswer : ∀ token, answer ≠ .token token)
      (hm : Follows l m ∧ m.finished = l.finished) : Follows l m ∧ Did l m answer :=
    ⟨hm.1, .other answer hanswer hm.2⟩
  cases call with
  | next =>
      obtain ⟨⟨token, behind⟩, hnext, h⟩ := Checked.bind_eq_ok_iff.mp h
      cases h
      exact next_cases hnext
  | advance =>
      obtain ⟨⟨byte, behind⟩, hadvance, h⟩ := Checked.bind_eq_ok_iff.mp h
      cases h
      exact hother nofun (advance_cases hadvance)
  | consume n =>
      obtain ⟨behind, hconsume, h⟩ := Checked.bind_eq_ok_iff.mp h
      cases h
      exact hother nofun (consume_cases hconsume)
  | collectWhile ask state =>
      obtain ⟨collected, hcollect, h⟩ := Checked.bind_eq_ok_iff.mp h
      cases h
      exact hother nofun (collectWhile_cases hcollect)
  -- The other calls leave the cursor where it is.
  | peek | peekAt _ | spanBefore _ =>
      obtain ⟨found, -, h⟩ := Checked.bind_eq_ok_iff.mp h
      cases h
      exact hother nofun ⟨.refl l, rfl⟩
  | isAtEnd | problems | takeProblems =>
      cases h
      exact hother nofun ⟨⟨rfl, rfl, Nat.le_refl _⟩, rfl⟩

/-! ### Calls in a row -/

/-- Calls one after the other, from a lexer to the one behind them all. -/
inductive Conversation : Lexer → List Exchange → Lexer → Prop where
  | nil (l : Lexer) : Conversation l [] l
  | cons {l m behind : Lexer} {answer : Answer} {exchanges : List Exchange} :
      Follows l m → Did l m answer → Conversation m exchanges behind →
      Conversation l (⟨l, answer, m⟩ :: exchanges) behind

/-- Calls that all have an answer are a row of steps, each of which did what one call can do. From
here on nothing needs to be known of the calls but that. -/
theorem conversation_of_converse {l behind : Lexer} {calls : List Call}
    {exchanges : List Exchange} (h : l.converse calls = .ok (exchanges, behind)) :
    Conversation l exchanges behind := by
  induction calls generalizing l exchanges with
  | nil =>
      cases h
      exact .nil behind
  | cons call later ih =>
      obtain ⟨⟨answer, m⟩, hrespond, h⟩ := Checked.bind_eq_ok_iff.mp h
      obtain ⟨⟨exchanges, behind⟩, hlater, h⟩ := Checked.bind_eq_ok_iff.mp h
      cases h
      obtain ⟨hfollows, hdid⟩ := respond_cases hrespond
      exact .cons hfollows hdid (ih hlater)

namespace Did

variable {l m : Lexer} {answer : Answer}

/-- A lexer that has finished stays so, whatever it is asked and however its cursor is moved. -/
theorem finished_of_finished (h : Did l m answer) (hl : l.finished = true) :
    m.finished = true := by
  cases h with
  | found t hopen => simp [hopen] at hl
  | exhausted _ hm => exact hm
  | again _ hm => rw [hm, hl]
  | other answer _ hm => rw [hm, hl]

/-- Finding no token finishes a lexer. -/
theorem finished_of_none (h : Did l m (.token none)) : m.finished = true := by
  cases h with
  | exhausted _ hm => exact hm
  | again hl hm => rw [hm, hl]
  | other answer hother => exact absurd rfl (hother none)

/-- Nothing else finishes it. -/
theorem finished_eq_false (h : Did l m answer) (hanswer : answer ≠ .token none)
    (hl : l.finished = false) : m.finished = false := by
  cases h with
  | found t _ hm => exact hm
  | exhausted => exact absurd rfl hanswer
  | again => exact absurd rfl hanswer
  | other answer _ hm => rw [hm, hl]

/-- When a lexer has finished, asking for a token does nothing, and no token is found. -/
theorem eq_of_finished {token : Option Token} (h : Did l m (.token token))
    (hl : l.finished = true) : token = none ∧ m = l := by
  cases h with
  | found t hopen => simp [hopen] at hl
  | exhausted hopen => simp [hopen] at hl
  | again _ hm => exact ⟨rfl, hm⟩
  | other answer hother => exact absurd rfl (hother token)

/-- A token is found ahead of the cursor and within the source. The cursor moves on with it, so
that no two calls find one token. -/
theorem offset_lt_of_some {t : Token} (h : Did l m (.token (some t))) :
    l.offset < m.offset ∧ m.offset ≤ l.source.size := by
  cases h with
  | found t _ _ hlt hle => exact ⟨hlt, hle⟩
  | other answer hother => exact absurd rfl (hother (some t))

/-- The first call that finds no token has a reason: only blanks are left, or a malformed number
that is suppressed. -/
theorem exhausts_of_none (h : Did l m (.token none)) (hl : l.finished = false) :
    Exhausts l.source l.config l m := by
  cases h with
  | exhausted _ _ hexhausts => exact hexhausts
  | again hfinished => simp [hl] at hfinished
  | other answer hother => exact absurd rfl (hother none)

end Did

namespace Conversation

variable {l behind : Lexer} {exchanges : List Exchange}

/-- What holds of each call of a conversation: it started at or behind the first lexer, and it did
what one call can do. -/
theorem of_mem (h : Conversation l exchanges behind) {e : Exchange} (he : e ∈ exchanges) :
    Follows l e.before ∧ Follows e.before e.after ∧ Did e.before e.after e.answer := by
  induction h with
  | nil l => cases he
  | cons hfollows hdid _ ih =>
      rcases List.mem_cons.mp he with rfl | he
      · exact ⟨.refl _, hfollows, hdid⟩
      · exact ⟨hfollows.trans (ih he).1, (ih he).2⟩

/-- A later call starts where an earlier one left the lexer, or further on, as no call moves the
cursor back. -/
theorem pairwise_follows (h : Conversation l exchanges behind) :
    exchanges.Pairwise fun e f => Follows e.after f.before := by
  induction h with
  | nil l => exact .nil
  | cons _ _ hlater ih =>
      refine .cons ?_ ih
      intro f hf
      exact (hlater.of_mem hf).1

/-- In a conversation with a finished lexer every call finds it finished, the last one included. -/
theorem finished_of_mem (h : Conversation l exchanges behind) (hl : l.finished = true)
    {e : Exchange} (he : e ∈ exchanges) : e.before.finished = true := by
  induction h with
  | nil l => cases he
  | cons _ hdid _ ih =>
      rcases List.mem_cons.mp he with rfl | he
      · exact hl
      · exact ih (hdid.finished_of_finished hl) he

/-- Behind a call that found no token the lexer has finished. -/
theorem pairwise_finished (h : Conversation l exchanges behind) :
    exchanges.Pairwise fun e f => e.answer = .token none → f.before.finished = true := by
  induction h with
  | nil l => exact .nil
  | @cons l m behind answer exchanges _ hdid hlater ih =>
      refine .cons ?_ ih
      intro f hf hanswer
      obtain rfl : answer = .token none := hanswer
      exact hlater.finished_of_mem hdid.finished_of_none hf

/-- Up to the first call that finds no token the lexer has not finished, however many other calls
there are in front. -/
theorem finished_eq_false {front later : List Exchange} {e : Exchange}
    (h : Conversation l (front ++ e :: later) behind) (hl : l.finished = false)
    (hfront : ∀ f ∈ front, f.answer ≠ .token none) : e.before.finished = false := by
  induction front generalizing l with
  | nil =>
      cases h
      exact hl
  | cons f front ih =>
      cases h with
      | cons _ hdid hlater =>
          refine ih hlater (hdid.finished_eq_false (hfront _ List.mem_cons_self) hl) ?_
          intro g hg
          exact hfront g (List.mem_cons_of_mem _ hg)

/-- Each token that is found leaves less of the source ahead. The number of tokens and the bytes
left at the end add up to no more than the bytes that were left at the start, whatever other calls
come between. -/
theorem length_tokens_add_le (h : Conversation l exchanges behind) :
    (exchanges.filterMap Exchange.token?).length + (behind.source.size - behind.offset)
      ≤ l.source.size - l.offset := by
  induction h with
  | nil l => exact Nat.le_of_eq (Nat.zero_add _)
  | @cons l m behind answer exchanges hfollows hdid _ ih =>
      have hoffset := hfollows.offset_le
      rw [hfollows.source_eq] at ih
      cases htoken : Exchange.token? ⟨l, answer, m⟩ with
      | none =>
          rw [List.filterMap_cons_none htoken]
          omega
      | some t =>
          -- The cursor moves within the source, so that there is room for the token.
          obtain rfl : answer = .token (some t) := Exchange.token?_eq_some_iff.mp htoken
          have hmoved := hdid.offset_lt_of_some
          rw [List.filterMap_cons_some htoken, List.length_cons]
          omega

end Conversation

/-- What is left of the source bounds the number of tokens that are left, as each of them takes a
byte at least. -/
theorem length_le_of_drain {l last : Lexer} {tokens : List Token}
    (h : l.drain = .ok (tokens, last)) : tokens.length ≤ l.source.size - l.offset := by
  refine drain_induction
    (motive := fun l tokens _ => tokens.length ≤ l.source.size - l.offset) ?_ ?_ h
  · intro l last _
    exact Nat.zero_le _
  · intro l m t tokens last hnext _ ih
    obtain ⟨hfollows, hdid⟩ := next_cases hnext
    have hmoved := hdid.offset_lt_of_some
    rw [hfollows.source_eq] at ih
    rw [List.length_cons]
    omega

/-- What every conversation with a lexer comes to, as far as its cursor and its tokens go. -/
structure Progress (source : Source) (config : Config) (exchanges : List Exchange)
    (behind : Lexer) : Prop where
  /-- No call moves the cursor back. -/
  onward : ∀ e ∈ exchanges, e.before.offset ≤ e.after.offset
  /-- It does not go back between calls either. -/
  pairwise_onward : exchanges.Pairwise fun e f => e.after.offset ≤ f.before.offset
  /-- A token moves the cursor on, and not past the end of the source. -/
  found : ∀ e ∈ exchanges, ∀ t, e.answer = .token (some t) →
    e.before.offset < e.after.offset ∧ e.after.offset ≤ source.size
  /-- Draining comes to an end, and the tokens found before and then are no more than the source
  has bytes. -/
  bounded : ∃ tokens last, behind.drain = .ok (tokens, last) ∧
    (exchanges.filterMap Exchange.token? ++ tokens).length ≤ source.size
  /-- Behind a call that found no token, each one that asks for one finds none, and leaves the
  lexer as it is. -/
  ended : exchanges.Pairwise fun e f => e.answer = .token none →
    ∀ token, f.answer = .token token → token = none ∧ f.after = f.before
  /-- The first call that finds no token has a reason. -/
  exhausted : ∀ front e later, exchanges = front ++ e :: later →
    (∀ f ∈ front, f.answer ≠ .token none) → e.answer = .token none →
    Exhausts source config e.before e.after

/-- Whatever a caller does with a lexer, the cursor does not move back, the tokens come to an end,
and behind the end there are none. A caller may start inside a token or a character, look past the
end and take problems away between the calls. The one hypothesis is that each call has an answer. -/
theorem converse_progress {source : Source} {config : Config} {calls : List Call}
    {exchanges : List Exchange} {behind : Lexer}
    (h : (start source config).converse calls = .ok (exchanges, behind)) :
    Progress source config exchanges behind := by
  have hconversation := conversation_of_converse h
  constructor
  case onward =>
    intro e he
    exact (hconversation.of_mem he).2.1.offset_le
  case pairwise_onward =>
    refine hconversation.pairwise_follows.imp ?_
    intro e f hfollows
    exact hfollows.offset_le
  case found =>
    intro e he t hanswer
    obtain ⟨hstart, -, hdid⟩ := hconversation.of_mem he
    rw [hanswer] at hdid
    have hmoved := hdid.offset_lt_of_some
    rw [hstart.source_eq] at hmoved
    exact hmoved
  case bounded =>
    obtain ⟨⟨tokens, last⟩, hdrain⟩ := behind.drain_eq_ok
    have hfound := hconversation.length_tokens_add_le
    have hleft := length_le_of_drain hdrain
    refine ⟨tokens, last, hdrain, ?_⟩
    rw [List.length_append]
    exact Nat.le_trans (Nat.add_le_add_left hleft _) hfound
  case ended =>
    refine hconversation.pairwise_finished.imp_of_mem ?_
    intro e f _ hf hfinished hnone token hanswer
    have hdid := (hconversation.of_mem hf).2.2
    rw [hanswer] at hdid
    exact hdid.eq_of_finished (hfinished hnone)
  case exhausted =>
    rintro front e later rfl hfront hanswer
    obtain ⟨hstart, -, hdid⟩ :=
      hconversation.of_mem (List.mem_append_right front List.mem_cons_self)
    rw [hanswer] at hdid
    have hexhausts := hdid.exhausts_of_none (hconversation.finished_eq_false rfl hfront)
    rw [hstart.source_eq, hstart.config_eq] at hexhausts
    exact hexhausts

/-- A caller that starts inside a word and goes on behind a malformed number, after that number
was the end. -/
theorem converse_past_malformed :
    ∃ exchanges behind,
      (start ⟨"ab 1.2.3 c", _, rfl, by decide⟩ { malformedNumber := .suppress }).converse
          [.consume 1, .next, .collectWhile (fun _ b => (Byte.isBlank b, ())) (), .next,
            .takeProblems, .advance, .next, .consume 100, .next]
        = .ok (exchanges, behind) ∧
      exchanges.map (·.answer)
        = [.moved, .token (some ⟨.ident "b", ⟨1, 1⟩⟩), .collected false " ", .token none,
            .problems [⟨.malformedNumber "1.2.3", ⟨3, 5⟩⟩], .byte (some 0x2E), .token none,
            .moved, .token none] ∧
      Progress ⟨"ab 1.2.3 c", _, rfl, by decide⟩ { malformedNumber := .suppress } exchanges
        behind := by
  let source : Source := ⟨"ab 1.2.3 c", _, rfl, by decide⟩
  let config : Config := { malformedNumber := .suppress }
  let calls : List Call := [.consume 1, .next,
    .collectWhile (fun _ b => (Byte.isBlank b, ())) (), .next, .takeProblems, .advance, .next,
    .consume 100, .next]
  have hanswers : ((start source config).converse calls >>= fun (exchanges, _) =>
      .ok (exchanges.map (·.answer)))
        = .ok [.moved, .token (some ⟨.ident "b", ⟨1, 1⟩⟩), .collected false " ", .token none,
          .problems [⟨.malformedNumber "1.2.3", ⟨3, 5⟩⟩], .byte (some 0x2E), .token none,
          .moved, .token none] := by
    rfl
  obtain ⟨⟨exchanges, behind⟩, hconverse, hanswers⟩ := Checked.bind_eq_ok_iff.mp hanswers
  exact ⟨exchanges, behind, hconverse, Except.ok.inj hanswers, converse_progress hconverse⟩

end Lexer

end Lexis
