import Lexis.Lexer.Basic
import Lexis.Reading

/-!
# `Lexis.Lexer.Run`: tokens one by one, and all of them

`Lexer.next` skips blanks and reads the lexeme behind them. Once it has found no token, it
finds none again. `Lexer.drain` asks for tokens until there are none.

* `Lexer.next_eq_ok`: asking for a token never faults.
* `Lexer.length_rest_of_next`: a token leaves fewer bytes ahead.
* `Lexer.drain_of_none`, `Lexer.drain_of_some`: draining is asking once, and then draining
  what is left.
* `Lexer.drain_eq_ok`: draining never faults.
-/

set_option autoImplicit false

namespace Lexis.Lexer

/-- The lexer with the outcome of a reading: its problem, and whether it was the last. -/
def record (l : Lexer) (reading : Reading) : Lexer :=
  { l with
    finished := reading.token.isNone
    problems := match reading.problem with
      | none => l.problems
      | some problem => l.problems.push problem }

/-- The next token, if there is one, and the lexer behind it. Blanks are moved over first, and
they stay moved over when no lexeme follows. A reading without a token leaves the lexer finished,
just as the end of the source does. -/
def next (l : Lexer) : Checked (Option Token × Lexer) :=
  if l.finished then .ok (none, l)
  else do
    let ahead ← l.consume (l.rest.takeWhile Byte.isBlank).length
    match Lexeme.ofBytes? l.config.comments ahead.rest with
    | none => return (none, { ahead with finished := true })
    | some lexeme =>
      let reading ← lexeme.read l.config ahead.offset
      let behind ← ahead.consume reading.advance
      return (reading.token, behind.record reading)

/-! ### Asking for a token -/

/-- The blanks ahead are bytes of the source, and so the cursor can move over them. -/
theorem offset_add_blanks_lt (l : Lexer) :
    l.offset + (l.rest.takeWhile Byte.isBlank).length < addressLimit := by
  have hblanks := List.takeWhile_prefix (l := l.rest) Byte.isBlank
  exact l.offset_add_lt hblanks.length_le

/-- The lexer behind the blanks ahead. -/
def skipBlanks (l : Lexer) : Lexer :=
  l.moved (l.rest.takeWhile Byte.isBlank).length l.offset_add_blanks_lt

/-- The lexeme behind the blanks ahead. -/
def lexeme? (l : Lexer) : Option Lexeme :=
  Lexeme.ofBytes? l.config.comments l.skipBlanks.rest

/-- A lexeme lies within the bytes ahead, and so does the part of it that is moved over. So the
move that a call makes for a token never faults. -/
theorem offset_add_advance_lt {l : Lexer} {lexeme : Lexeme} (h : l.lexeme? = some lexeme) :
    l.skipBlanks.offset + (lexeme.readAt l.config l.skipBlanks.offset).advance < addressLimit :=
  l.skipBlanks.offset_add_lt
    (Nat.le_trans (lexeme.advance_readAt_le _ _) (Lexeme.spelling_isPrefix h).length_le)

/-- A lexer that has found no token finds none again, and does not move. -/
theorem next_of_finished {l : Lexer} (h : l.finished = true) : l.next = .ok (none, l) := by
  rw [next, if_pos h]

/-- Asking where nothing but blanks is ahead. The lexer ends up behind the blanks, and is
finished. -/
theorem next_of_none {l : Lexer} (hfinished : l.finished = false) (h : l.lexeme? = none) :
    l.next = .ok (none, { l.skipBlanks with finished := true }) := by
  rw [next, hfinished, if_neg Bool.false_ne_true,
    consume_eq_ok l.offset_add_blanks_lt]
  -- The definition looks for a lexeme where `lexeme?` does.
  show (match l.lexeme? with
    | none => _
    | some lexeme => _) = _
  rw [h]
  rfl

/-- Asking where a lexeme is ahead. No checked operation faults there, so the answer is the
lexeme's reading, and the lexer has moved by its advance. -/
theorem next_of_some {l : Lexer} {lexeme : Lexeme} (hfinished : l.finished = false)
    (h : l.lexeme? = some lexeme) :
    l.next = .ok ((lexeme.readAt l.config l.skipBlanks.offset).token,
      (l.skipBlanks.moved _ (offset_add_advance_lt h)).record
        (lexeme.readAt l.config l.skipBlanks.offset)) := by
  have hwidth : lexeme.width ≤ l.skipBlanks.rest.length := (Lexeme.spelling_isPrefix h).length_le
  rw [next, hfinished, if_neg Bool.false_ne_true,
    consume_eq_ok l.offset_add_blanks_lt]
  show (match l.lexeme? with
    | none => _
    | some lexeme => (do
        let reading ← lexeme.read l.config l.skipBlanks.offset
        let behind ← l.skipBlanks.consume reading.advance
        return (reading.token, behind.record reading))) = _
  rw [h]
  show (lexeme.read l.config l.skipBlanks.offset >>= _) = _
  rw [Lexeme.read_eq_ok l.config (l.skipBlanks.offset_add_lt hwidth)]
  show (l.skipBlanks.consume _ >>= _) = _
  rw [consume_eq_ok (offset_add_advance_lt h)]
  rfl

/-- Asking for a token always has an answer, in one of three ways: the lexer is finished, or
nothing but blanks is ahead, or a lexeme is. -/
theorem next_eq_ok (l : Lexer) : ∃ result, l.next = .ok result := by
  cases hfinished : l.finished with
  | true => exact ⟨_, next_of_finished hfinished⟩
  | false =>
      cases hlexeme : l.lexeme? with
      | none => exact ⟨_, next_of_none hfinished hlexeme⟩
      | some lexeme => exact ⟨_, next_of_some hfinished hlexeme⟩

/-- A token leaves fewer bytes ahead, so that asking comes to an end. This is what draining
terminates by. -/
theorem length_rest_of_next {l m : Lexer} {t : Token} (h : l.next = .ok (some t, m)) :
    m.rest.length < l.rest.length := by
  cases hfinished : l.finished with
  | true =>
      rw [next_of_finished hfinished] at h
      cases h
  | false =>
      cases hlexeme : l.lexeme? with
      | none =>
          rw [next_of_none hfinished hlexeme] at h
          cases h
      | some lexeme =>
          rw [next_of_some hfinished hlexeme, Except.ok.injEq, Prod.mk.injEq] at h
          obtain ⟨htoken, rfl⟩ := h
          -- With a token the cursor moves past the whole lexeme, which is not empty.
          have hadvance : (lexeme.readAt l.config l.skipBlanks.offset).advance = lexeme.width :=
            Lexeme.advance_readAt (by rw [htoken]; rfl)
          have hpos := Lexeme.length_spelling_pos hlexeme
          have hwidth : lexeme.width ≤ l.skipBlanks.rest.length :=
            (Lexeme.spelling_isPrefix hlexeme).length_le
          have hblanks : l.skipBlanks.rest.length ≤ l.rest.length := by
            show (l.rest.drop _).length ≤ _
            rw [List.length_drop]
            exact Nat.sub_le _ _
          show (l.skipBlanks.rest.drop _).length < _
          rw [List.length_drop, hadvance]
          omega

/-! ### Asking for all of them -/

/-- The tokens ahead, behind those of `done`, and the lexer behind them all. -/
def drainFrom (done : Array Token) (l : Lexer) : Checked (List Token × Lexer) :=
  match _h : l.next with
  | .error fault => .error fault
  | .ok (none, behind) => .ok (done.toList, behind)
  | .ok (some t, behind) => drainFrom (done.push t) behind
termination_by l.rest.length
decreasing_by exact length_rest_of_next _h

/-- The tokens ahead, and the lexer behind them. It ends at the first question without an answer,
which is the end of the source or a suppressed number. -/
def drain (l : Lexer) : Checked (List Token × Lexer) := drainFrom #[] l

/-- When there is no next token, what was collected is the outcome. -/
theorem drainFrom_of_none {l m : Lexer} (done : Array Token) (h : l.next = .ok (none, m)) :
    drainFrom done l = .ok (done.toList, m) := by
  rw [drainFrom]
  split <;> simp_all

/-- A token is put behind those collected, and draining goes on from the lexer behind it. -/
theorem drainFrom_of_some {l m : Lexer} {t : Token} (done : Array Token)
    (h : l.next = .ok (some t, m)) : drainFrom done l = drainFrom (done.push t) m := by
  rw [drainFrom]
  split <;> simp_all

/-- What was collected before stands in front of what is drained. Tokens are collected at the end
of an array, and lists are what is proved about. -/
theorem drainFrom_eq (done : Array Token) (l : Lexer) :
    drainFrom done l = l.drain.map fun (tokens, behind) => (done.toList ++ tokens, behind) := by
  induction hn : l.rest.length using Nat.strongRecOn generalizing done l with
  | ind n ih =>
      subst hn
      obtain ⟨⟨token, m⟩, hnext⟩ := l.next_eq_ok
      cases token with
      | none => simp [drain, drainFrom_of_none _ hnext, Except.map]
      | some t =>
          -- Both sides go on with `m`, and there the equation holds for every `done`.
          have hm := fun done => ih _ (length_rest_of_next hnext) done m rfl
          rw [drain, drainFrom_of_some _ hnext, drainFrom_of_some _ hnext, hm, hm (#[].push t)]
          cases m.drain <;> simp [Except.map]

/-- Draining a lexer without a next token gives no tokens, and the lexer behind the question. -/
theorem drain_of_none {l m : Lexer} (h : l.next = .ok (none, m)) : l.drain = .ok ([], m) :=
  drainFrom_of_none #[] h

/-- Draining is asking once, and then draining what is left. By this and `drain_of_none` a fact
about a whole run goes by induction on the number of bytes ahead. -/
theorem drain_of_some {l m : Lexer} {t : Token} (h : l.next = .ok (some t, m)) :
    l.drain = m.drain.map fun (tokens, behind) => (t :: tokens, behind) := by
  rw [drain, drainFrom_of_some _ h, drainFrom_eq]
  rfl

/-- Draining always comes to an end, and without a fault, from wherever the cursor has been moved
to. -/
theorem drain_eq_ok (l : Lexer) : ∃ result, l.drain = .ok result := by
  induction hn : l.rest.length using Nat.strongRecOn generalizing l with
  | ind n ih =>
      subst hn
      obtain ⟨⟨token, m⟩, hnext⟩ := l.next_eq_ok
      cases token with
      | none => exact ⟨_, drain_of_none hnext⟩
      | some t =>
          obtain ⟨result, hresult⟩ := ih _ (length_rest_of_next hnext) m rfl
          rw [drain_of_some hnext, hresult]
          exact ⟨_, rfl⟩

end Lexis.Lexer
