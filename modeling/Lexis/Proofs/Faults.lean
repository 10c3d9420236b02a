import Lexis.Proofs.Bytewise.Next
import Lexis.Proofs.Progress

/-!
# `Lexis.Proofs.Faults`: which calls to a lexer fault

A caller can put the cursor of a lexer inside of a character, a comment or a literal, or past the
end of the source. Of all calls only those fault that ask for a place which is no place: a move or
a look past the last address, a span that would start before the source, a text past its end.
Whether one does depends on the size of the source and on the offset, and on nothing else that
happened. The theorems:

* `Lexer.respond_eq_error_iff`: which single calls fault, and how.
* `Lexer.converse_eq_error_iff`: calls in a row fault if one of them does.
* `Lexer.converse_faults`: the faults of any call after any others, and that no step of a cursor
  that goes byte by byte adds to them.
-/

set_option autoImplicit false

namespace Lexis

namespace Checked

variable {α β : Type} {first : Checked α} {fault : Fault}

/-- Two operations in a row fault when the first one does, or else the second one. -/
theorem bind_eq_error_iff {second : α → Checked β} :
    first >>= second = .error fault ↔
      first = .error fault ∨ ∃ a, first = .ok a ∧ second a = .error fault := by
  cases first with
  | error found =>
      constructor
      · intro h
        exact .inl (congrArg _ (Except.error.inj h))
      · rintro (h | ⟨a, ha, -⟩)
        · exact congrArg _ (Except.error.inj h)
        · cases ha
  | ok a =>
      constructor
      · intro h
        exact .inr ⟨a, rfl, h⟩
      · rintro (h | ⟨b, hb, h⟩)
        · cases h
        · obtain rfl := Except.ok.inj hb
          exact h

/-- What is done with an answer does not fault, so that the whole faults as the operation does. -/
theorem map_eq_error_iff {answer : α → β} :
    (first >>= fun a => pure (answer a)) = .error fault ↔ first = .error fault := by
  rw [bind_eq_error_iff]
  exact ⟨fun h => h.elim id nofun, .inl⟩

/-- An operation that faults on a condition (`herror`) and has an answer otherwise (`hok`) faults
just on that condition, and in just that way. -/
theorem eq_error_iff {condition : Prop} [Decidable condition] {found : Fault}
    (herror : condition → first = .error found) (hok : ¬condition → ∃ a, first = .ok a) :
    first = .error fault ↔ (if condition then some found else none) = some fault := by
  by_cases h : condition
  · rw [if_pos h, herror h, Except.error.injEq, Option.some.injEq]
  · obtain ⟨a, ha⟩ := hok h
    rw [if_neg h, ha]
    exact ⟨nofun, nofun⟩

end Checked

/-- The fault of a call to a lexer at an offset of a source of `size` bytes, if it has one. Only
calls that name a place or a length can fault, and collecting, which takes a text from the source
at its offset. Asking for a token never does. -/
def Call.fault? (size offset : Nat) : Call → Option Fault
  | .consume n | .peekAt n =>
    if addressLimit ≤ offset + n then some (.unaddressable offset n) else none
  | .spanBefore length => if offset < length then some (.beforeSource offset length) else none
  | .collectWhile _ _ => if size < offset then some (.pastSource offset size) else none
  | .next | .advance | .peek | .isAtEnd | .problems | .takeProblems => none

namespace Lexer

/-- The answer to a call, and the lexer behind it, by a cursor that goes byte by byte and checks
each addition, each subtraction and each slice on its way. -/
def respondBytewise (l : Lexer) : Call → Checked (Answer × Lexer)
  | .next => do
    let (token, behind) ← l.nextBytewise
    return (.token token, behind)
  | .collectWhile ask state => do
    let collected ← l.collectBytewise ask state
    return (.collected collected.atEnd collected.text, collected.lexer)
  | call => l.respond call

/-- Both cursors give the same answer to every call, and fault alike. So none of the checked steps
of the one that goes byte by byte faults where the other has an answer. -/
theorem respondBytewise_eq (l : Lexer) (call : Call) : l.respondBytewise call = l.respond call := by
  cases call with
  | next => rw [respondBytewise, nextBytewise_eq, respond]
  | collectWhile ask state => rw [respondBytewise, collectBytewise_eq, respond]
  | _ => rfl

/-! ### One call -/

/-- Moving on by a byte never faults. It moves only if there is one, and behind it the offset is
at most the size of the source. -/
theorem advance_eq_ok (l : Lexer) : ∃ result, l.advance = .ok result := by
  rw [advance, peek_eq_ok, Checked.ok_bind]
  cases hrest : l.rest with
  | nil => exact ⟨_, rfl⟩
  | cons b rest =>
      have hle : 1 ≤ l.rest.length := by simp [hrest]
      dsimp only [List.head?_cons]
      rw [consume_of_le hle]
      exact ⟨_, rfl⟩

/-- Collecting from within the source has an answer, whatever the predicate says of the bytes. -/
theorem collectWhile_eq_ok {σ : Type} {l : Lexer} (h : l.offset ≤ l.source.size)
    (ask : σ → UInt8 → Bool × σ) (state : σ) :
    ∃ collected, l.collectWhile ask state = .ok collected := by
  have hn := l.offset_add_lt (acceptedFrom_le ask state l.rest)
  exact ⟨_, collectWhile_of_accepted h rfl hn⟩

/-- Collecting from behind the end of the source faults, and the predicate is not even asked:
there is no text from there on. -/
theorem collectWhile_eq_error {σ : Type} {l : Lexer} (h : l.source.size < l.offset)
    (ask : σ → UInt8 → Bool × σ) (state : σ) :
    l.collectWhile ask state = .error (.pastSource l.offset l.source.size) := by
  rw [collectWhile, if_pos h]
  rfl

/-- A single call faults as `Call.fault?` says, in every state of the lexer, and in no other way.
Each call is one that always has an answer, or one that faults on a single condition. -/
theorem respond_eq_error_iff (l : Lexer) (call : Call) (fault : Fault) :
    l.respond call = .error fault ↔ call.fault? l.source.size l.offset = some fault := by
  have hanswered {α : Type} {operation : Checked α} (hok : ∃ a, operation = .ok a) :
      operation = .error fault ↔ (none : Option Fault) = some fault := by
    obtain ⟨a, rfl⟩ := hok
    exact ⟨nofun, nofun⟩
  cases call with
  | next => exact Checked.map_eq_error_iff.trans (hanswered l.next_eq_ok)
  | advance => exact Checked.map_eq_error_iff.trans (hanswered l.advance_eq_ok)
  | peek => exact Checked.map_eq_error_iff.trans (hanswered ⟨_, l.peek_eq_ok⟩)
  | isAtEnd => exact hanswered ⟨_, rfl⟩
  | problems => exact hanswered ⟨_, rfl⟩
  | takeProblems => exact hanswered ⟨_, rfl⟩
  | consume n =>
      refine Checked.map_eq_error_iff.trans (Checked.eq_error_iff consume_eq_error ?_)
      intro h
      exact ⟨_, consume_eq_ok (Nat.not_le.mp h)⟩
  | peekAt n =>
      refine Checked.map_eq_error_iff.trans (Checked.eq_error_iff peekAt_eq_error ?_)
      intro h
      exact ⟨_, peekAt_eq_ok (Nat.not_le.mp h)⟩
  | spanBefore length =>
      refine Checked.map_eq_error_iff.trans (Checked.eq_error_iff spanBefore_eq_error ?_)
      intro h
      exact ⟨_, spanBefore_eq_ok (Nat.not_lt.mp h)⟩
  | collectWhile ask state =>
      refine Checked.map_eq_error_iff.trans (Checked.eq_error_iff ?_ ?_)
      · intro h
        exact collectWhile_eq_error h ask state
      · intro h
        exact collectWhile_eq_ok (Nat.not_lt.mp h) ask state

/-! ### Calls in a row -/

/-- Behind all calls the lexer still lexes its source, with the same configuration. -/
theorem Conversation.follows {l behind : Lexer} {exchanges : List Exchange}
    (h : Conversation l exchanges behind) : Follows l behind := by
  induction h with
  | nil l => exact .refl l
  | cons hfollows _ _ ih => exact hfollows.trans ih

/-- Calls in a row fault when one of them does where those in front of it led. The first of them
that faults ends the row, and its fault is the fault of the whole. -/
theorem converse_eq_error_iff {l : Lexer} {calls : List Call} {fault : Fault} :
    l.converse calls = .error fault ↔ ∃ front call later exchanges m,
      calls = front ++ call :: later ∧ l.converse front = .ok (exchanges, m) ∧
      call.fault? m.source.size m.offset = some fault := by
  induction calls generalizing l with
  | nil =>
      constructor
      · intro h
        cases h
      · rintro ⟨front, call, later, _, _, hcalls, -, -⟩
        cases front <;> cases hcalls
  | cons call calls ih =>
      rw [converse, Checked.bind_eq_error_iff, respond_eq_error_iff]
      constructor
      · rintro (hfault | ⟨⟨answer, m⟩, hrespond, h⟩)
        · exact ⟨[], call, calls, [], l, rfl, rfl, hfault⟩
        · obtain ⟨front, later, rest, exchanges, last, rfl, hfront, hfault⟩ :=
            ih.mp (Checked.map_eq_error_iff.mp h)
          refine ⟨call :: front, later, rest, ⟨l, answer, m⟩ :: exchanges, last, rfl, ?_, hfault⟩
          rw [converse, hrespond, Checked.ok_bind]
          dsimp only
          rw [hfront]
          rfl
      · rintro ⟨front, later, rest, exchanges, last, hcalls, hfront, hfault⟩
        cases front with
        | nil =>
            cases hfront
            cases hcalls
            exact .inl hfault
        | cons first front =>
            cases hcalls
            obtain ⟨⟨answer, m⟩, hrespond, hfront⟩ := Checked.bind_eq_ok_iff.mp hfront
            obtain ⟨⟨exchanges, behind⟩, hlater, hfront⟩ := Checked.bind_eq_ok_iff.mp hfront
            cases hfront
            refine .inr ⟨(answer, m), hrespond, Checked.map_eq_error_iff.mpr (ih.mpr ?_)⟩
            exact ⟨front, later, rest, exchanges, _, rfl, hlater, hfault⟩

/-- Whatever a caller has done with a lexer, the next call faults only if it asks for a place that
is no place, and how depends on nothing but the size of the source and the offset. A cursor that
goes byte by byte, with every step of it checked, answers the call alike. `h` says that none of
the calls before faulted. -/
theorem converse_faults {source : Source} {config : Config} {calls : List Call}
    {exchanges : List Exchange} {l : Lexer}
    (h : (start source config).converse calls = .ok (exchanges, l)) (call : Call) :
    l.respondBytewise call = l.respond call ∧
      ∀ fault, l.respond call = .error fault ↔ call.fault? source.size l.offset = some fault := by
  have hfollows := (conversation_of_converse h).follows
  refine ⟨respondBytewise_eq l call, ?_⟩
  intro fault
  rw [respond_eq_error_iff, hfollows.source_eq]
  rfl

/-- A caller that starts inside of a character and goes on past the end of the source: asking for
a token does not fault, and asking for a text or for too long a span does. -/
theorem converse_faults_past_end :
    ∃ exchanges l,
      (start ⟨"é", _, rfl, by decide⟩ {}).converse [.consume 1, .next, .consume 5]
        = .ok (exchanges, l) ∧
      exchanges.map (·.answer)
        = [.moved, .token (some ⟨.unknown "\uFFFD", ⟨1, 1⟩⟩), .moved] ∧
      (∀ fault, l.respond .next ≠ .error fault) ∧
      l.respond (.collectWhile (fun _ _ => (true, ())) ()) = .error (.pastSource 7 2) ∧
      l.respond (.spanBefore 8) = .error (.beforeSource 7 8) := by
  let source : Source := ⟨"é", _, rfl, by decide⟩
  let calls : List Call := [.consume 1, .next, .consume 5]
  have hreached : ((start source {}).converse calls >>= fun reached =>
      .ok (reached.1.map (·.answer), reached.2.offset))
        = .ok ([.moved, .token (some ⟨.unknown "\uFFFD", ⟨1, 1⟩⟩), .moved], 7) := by
    rfl
  obtain ⟨⟨exchanges, l⟩, hconverse, hreached⟩ := Checked.bind_eq_ok_iff.mp hreached
  obtain ⟨hanswers, hoffset⟩ := Prod.mk.inj (Except.ok.inj hreached)
  refine ⟨exchanges, l, hconverse, hanswers, ?_, ?_, ?_⟩
  · intro fault hfault
    cases ((converse_faults hconverse .next).2 fault).mp hfault
  · refine ((converse_faults hconverse _).2 _).mpr ?_
    rw [hoffset]
    rfl
  · refine ((converse_faults hconverse _).2 _).mpr ?_
    rw [hoffset]
    rfl

end Lexer

end Lexis
