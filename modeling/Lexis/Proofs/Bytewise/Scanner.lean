import Lexis.Proofs.Bytewise.Cursor

/-!
# `Lexis.Proofs.Bytewise.Scanner`: tokens by checked steps

`Lexer.nextBytewise` finds the next token with the cursor of `Lexis.Proofs.Bytewise.Cursor`. It
decides by the byte that is next, and has a way to scan each kind of lexeme. Every step of it
may fault: a move past the last address, a difference below zero, a slice beyond the source, a
count that grows too large. `Lexer.ScansAs` says what a scan comes to if none does.
-/

set_option autoImplicit false

namespace Lexis

namespace Lexer

/-! ### The scanner -/

/-- The lexer with a problem recorded, if there is one. -/
def noted (l : Lexer) : Option Problem → Lexer
  | none => l
  | some problem => { l with problems := l.problems.push problem }

/-- The longest run of bytes that belong together, and the lexer behind it. -/
def collectRun (belongs : UInt8 → Bool) (l : Lexer) : Checked (List UInt8 × Lexer) := do
  let (run, _, behind) ← l.collect (fun _ b => .ok (belongs b, ())) ()
  return (run, behind)

/-- The span from an offset up to the cursor, by its length. -/
def spanSince (l : Lexer) (start : Nat) : Checked Span := do
  l.spanBefore (← Fault.offsetBefore l.offset start)

/-- The span from an offset up to the cursor, by its start. -/
def spanFrom (l : Lexer) (start : Nat) : Checked Span := do
  Span.make start (← Fault.offsetBefore l.offset start)

/-- The bytes of a span. -/
def bytesOf (l : Lexer) (span : Span) : Checked (List UInt8) := do
  l.bytesBetween span.start (← Fault.offsetAfter span.start span.length)

/-- A word: a reserved word if the whole run is one, and an identifier otherwise. -/
def scanWord (l : Lexer) : Checked (Option Token × Lexer) := do
  let (letters, behind) ← l.collectRun Byte.continuesWord
  let span ← behind.spanSince l.offset
  return (some ⟨Lexeme.wordPayload letters, span⟩, behind)

/-- What was seen of a number. -/
structure Dots where
  /-- Where its first dot stands. -/
  first? : Option Nat
  /-- Whether there was no second one. -/
  isValid : Bool
  /-- Where the next byte stands. -/
  offset : Nat

/-- Whether a byte belongs to a number before its second dot. -/
def Dots.ask (dots : Dots) (b : UInt8) : Checked (Bool × Dots) :=
  if !Byte.continuesNumber b then return (false, dots)
  else if b == Byte.dot && dots.first?.isSome then return (false, { dots with isValid := false })
  else do
    let next ← Fault.offsetAfter dots.offset 1
    return (true, { dots with
      first? := if b == Byte.dot then some dots.offset else dots.first?
      offset := next })

/-- A number that started at `start`, where the cursor is at its second dot. -/
def scanMalformed (l : Lexer) (start : Nat) : Checked (Option Token × Lexer) := do
  let ahead ← l.bytesBetween l.offset l.source.size
  let count := (ahead.takeWhile Byte.continuesNumber).length
  let stop ← Fault.offsetAfter l.offset count
  let span ← Span.make start (← Fault.offsetBefore stop start)
  let text := Text.decode (← l.bytesOf span)
  let behind := l.noted (some ⟨.malformedNumber text, span⟩)
  match l.config.malformedNumber with
  | .suppress => return (none, behind)
  | .errorToken => return (some ⟨.unknown text, span⟩, ← behind.consume count)

/-- A number. Where it has a second dot the cursor stays there, and the rest is looked at. -/
def scanNumber (l : Lexer) : Checked (Option Token × Lexer) := do
  let (run, dots, behind) ← l.collect Dots.ask ⟨none, true, l.offset⟩
  if dots.isValid then
    let span ← behind.spanSince l.offset
    let kind := if dots.first?.isSome then NumberKind.float else .int
    return (some ⟨.literal (.number kind (Text.decode run) .decimal), span⟩, behind)
  else behind.scanMalformed l.offset

/-- Whether a byte belongs to a quoted literal, and whether the line was broken before. -/
def askQuoted (quote : Quote) (broken : Bool) (b : UInt8) : Bool × Bool :=
  if b == Byte.lineFeed then (false, true) else (b != quote.byte, broken)

/-- A quoted literal. Its quote is moved over only where there is one. -/
def scanQuoted (l : Lexer) (quote : Quote) : Checked (Option Token × Lexer) := do
  let inner ← l.consume 1
  let (value, broken, behind) ← inner.collect (fun broken b => .ok (askQuoted quote broken b)) false
  let isTerminated := !(broken || behind.isAtEnd)
  let content ← behind.spanSince inner.offset
  let behind ← behind.consume isTerminated.toNat
  let span ← match l.config.quoteSpan with
    | .content => pure content
    | .delimited => behind.spanFrom l.offset
  return (some ⟨.literal (.quoted quote (Text.decode value) isTerminated), span⟩, behind)

/-- A line comment, up to the end of its line. -/
def scanLineComment (l : Lexer) : Checked (Option Token × Lexer) := do
  let inner ← l.consume 2
  let isDoc := (← inner.peek) == some Byte.slash && (← inner.peekAt 1) != some Byte.slash
  let inner ← inner.consume isDoc.toNat
  let (content, behind) ← inner.collectRun (· != Byte.lineFeed)
  let span ← behind.spanFrom l.offset
  return (some ⟨.comment ⟨.line, isDoc, Text.decode (Lexeme.withoutReturn content)⟩, span⟩, behind)

/-- One step inside of `depth` block comments, the last of which that was closed ends at
`contentStop`. At the end of the source there is none. -/
def commentStep (depth contentStop : Nat) (l : Lexer) : Checked (Option (Nat × Nat × Lexer)) := do
  match ← l.peek, ← l.peekAt 1 with
  | none, _ => return none
  | some a, next =>
    if a == Byte.slash && next == some Byte.star then
      return some (← Fault.offsetAfter depth 1, contentStop, ← l.consume 2)
    else if a == Byte.star && next == some Byte.slash then
      return some (← Fault.offsetBefore depth 1, l.offset, ← l.consume 2)
    else return some (depth, contentStop, ← l.consume 1)

/-- A step within a comment moves over at least one byte, whichever of its three cases it is, so
that walking through a comment ends. -/
theorem length_rest_of_commentStep {depth contentStop : Nat} {l : Lexer}
    {result : Nat × Nat × Lexer} (h : l.commentStep depth contentStop = .ok (some result)) :
    result.2.2.rest.length < l.rest.length := by
  have hconsume {n : Nat} {behind : Lexer} {b : UInt8} (hb : l.rest.head? = some b)
      (hpos : 0 < n) (hbehind : l.consume n = .ok behind) :
      behind.rest.length < l.rest.length := by
    refine length_rest_of_consume hbehind hpos ?_
    intro hrest
    rw [hrest] at hb
    cases hb
  obtain ⟨first, hfirst, h⟩ := Checked.bind_eq_ok_iff.mp h
  obtain ⟨second, -, h⟩ := Checked.bind_eq_ok_iff.mp h
  rw [peek_eq_ok, Except.ok.injEq] at hfirst
  subst hfirst
  split at h
  · cases h
  · next b _ hb =>
      split at h
      · obtain ⟨_, -, h⟩ := Checked.bind_eq_ok_iff.mp h
        obtain ⟨behind, hbehind, h⟩ := Checked.bind_eq_ok_iff.mp h
        cases h
        exact hconsume hb Nat.two_pos hbehind
      · split at h
        · obtain ⟨_, -, h⟩ := Checked.bind_eq_ok_iff.mp h
          obtain ⟨behind, hbehind, h⟩ := Checked.bind_eq_ok_iff.mp h
          cases h
          exact hconsume hb Nat.two_pos hbehind
        · obtain ⟨behind, hbehind, h⟩ := Checked.bind_eq_ok_iff.mp h
          cases h
          exact hconsume hb Nat.one_pos hbehind

/-- How many block comments are open where `depth` were, the end of the last that was closed, and
the lexer behind them. -/
def walkComment (depth contentStop : Nat) (l : Lexer) : Checked (Nat × Nat × Lexer) :=
  if depth = 0 then .ok (depth, contentStop, l)
  else
    match _hstep : l.commentStep depth contentStop with
    | .error fault => .error fault
    | .ok none => .ok (depth, contentStop, l)
    | .ok (some (depth, contentStop, behind)) => walkComment depth contentStop behind
termination_by l.rest.length
decreasing_by exact length_rest_of_commentStep _hstep

/-- A block comment and all that is nested in it. -/
def scanBlockComment (l : Lexer) : Checked (Option Token × Lexer) := do
  let inner ← l.consume 2
  let first ← inner.peek
  let second ← inner.peekAt 1
  let isDoc := first == some Byte.star && second != some Byte.star && second != some Byte.slash
  let inner ← inner.consume isDoc.toNat
  let (openDepth, contentStop, behind) ← inner.walkComment 1 inner.offset
  let span ← behind.spanFrom l.offset
  if openDepth = 0 then
    let content ← behind.bytesBetween inner.offset contentStop
    return (some ⟨.comment ⟨.block, isDoc, Text.decode content⟩, span⟩, behind)
  else
    let content ← behind.bytesBetween inner.offset behind.offset
    return (some ⟨.comment ⟨.block, isDoc, Text.decode content⟩, span⟩,
      behind.noted (some ⟨.unterminatedComment openDepth, span⟩))

/-- A byte that is a token alone, or of none. -/
def scanSingle (l : Lexer) : Checked (Option Token × Lexer) := do
  match ← l.advance with
  | (none, behind) => return (none, behind)
  | (some b, behind) =>
    let span ← behind.spanBefore 1
    match Symbol.ofByte? b with
    | some sign => return (some ⟨.symbol (.symbol sign), span⟩, behind)
    | none => return (some ⟨.unknown (Text.decode (← behind.bytesOf span)), span⟩, behind)

/-- The token that starts with a byte, which is next and not blank. -/
def scanAt (b : UInt8) (l : Lexer) : Checked (Option Token × Lexer) :=
  if Byte.startsWord b then l.scanWord
  else if Byte.isDigit b then l.scanNumber
  else
    match Quote.ofByte? b with
    | some quote => l.scanQuoted quote
    | none => do
      let next ← if l.config.comments && b == Byte.slash then l.peekAt 1 else pure none
      if next == some Byte.slash then l.scanLineComment
      else if next == some Byte.star then l.scanBlockComment
      else l.scanSingle

/-- The next token, byte by byte. -/
def nextBytewise (l : Lexer) : Checked (Option Token × Lexer) :=
  if l.finished then .ok (none, l)
  else do
    let (_, ahead) ← l.walk (fun _ b => .ok (Byte.isBlank b, ())) ()
    let (token, behind) ← match ← ahead.peek with
      | none => pure (none, ahead)
      | some b => ahead.scanAt b
    return (token, if token.isSome then behind else { behind with finished := true })

/-! ### Runs and spans -/

variable {l : Lexer} {n : Nat} {b : UInt8} {tail : List UInt8}

/-- Walking over bytes of one class ends behind the longest run of them, or where it began if
there are none. -/
theorem walk_run {belongs : UInt8 → Bool} {run : List UInt8}
    (hrun : l.rest.takeWhile belongs = run) (hn : l.offset + run.length < addressLimit) :
    l.walk (fun _ b => .ok (belongs b, ())) () = .ok ((), l.moved run.length hn) := by
  refine walk_pure ?_ hn
  rw [acceptedFrom_stateless, hrun]

/-- Collecting bytes of one class gives the longest run of them. The cursor must be within the
source, since the run is cut out of it. -/
theorem collectRun_eq_ok {belongs : UInt8 → Bool} {run : List UInt8}
    (hrun : l.rest.takeWhile belongs = run) (hn : l.offset + run.length < addressLimit)
    (hle : l.offset ≤ l.source.size) :
    l.collectRun belongs = .ok (run, l.moved run.length hn) := by
  have hprefix : run <+: l.rest := hrun ▸ List.takeWhile_prefix _
  have hstop : l.offset + run.length ≤ l.source.size := by
    have hlength := hprefix.length_le
    have hrest := l.length_rest
    omega
  rw [collectRun, collect_eq_ok (walk_run hrun hn) hstop, ← List.prefix_iff_eq_take.mp hprefix]
  rfl

/-- The span of what was just moved over starts where the cursor was. -/
theorem spanBefore_moved (hn : l.offset + n < addressLimit) :
    (l.moved n hn).spanBefore n = .ok ⟨l.offset, n⟩ := by
  rw [spanBefore_eq_ok (Nat.le_add_left _ _), offset_moved, Nat.add_sub_cancel]

/-- The same span, when its length is computed as a difference of offsets first. -/
theorem spanSince_moved (hn : l.offset + n < addressLimit) :
    (l.moved n hn).spanSince l.offset = .ok ⟨l.offset, n⟩ := by
  rw [spanSince, offset_moved, Fault.offsetBefore_eq_ok (Nat.le_add_right _ _), Checked.ok_bind,
    Nat.add_sub_cancel_left, spanBefore_moved]

/-- The same span, when it is built from its start. Scanning does both, and here they agree. -/
theorem spanFrom_moved (hn : l.offset + n < addressLimit) :
    (l.moved n hn).spanFrom l.offset = .ok ⟨l.offset, n⟩ := by
  rw [spanFrom, offset_moved, Fault.offsetBefore_eq_ok (Nat.le_add_right _ _), Checked.ok_bind,
    Nat.add_sub_cancel_left, Span.make_eq_ok hn]

/-- The bytes that the cursor moved over, by their span. The span is the one that scanning gives
to the token, or a part of it. -/
theorem bytesOf_moved {m : Nat} (hn : l.offset + n < addressLimit) (hle : m ≤ l.rest.length)
    (hoffset : l.offset ≤ l.source.size) :
    (l.moved n hn).bytesOf ⟨l.offset, m⟩ = .ok (l.rest.take m) := by
  rw [bytesOf, Fault.offsetAfter_eq_ok (l.offset_add_lt hle), Checked.ok_bind,
    bytesBetween_ahead (l := l) (m := l.moved n hn) rfl hle hoffset]

/-- Problems do not hold the cursor: moving and noting a problem can change places. -/
theorem consume_noted (problem : Option Problem) (hn : l.offset + n < addressLimit) :
    (l.noted problem).consume n = .ok ((l.moved n hn).noted problem) := by
  cases problem with
  | none => exact consume_eq_ok hn
  | some problem => exact consume_eq_ok (l := l.noted (some problem)) hn

/-! ### Lexemes -/

/-- A scan has the outcome of reading the lexeme where the cursor stands: the same token, the same
problem, and the cursor moved as far. That there is an address to move to is part of it. -/
def ScansAs (l : Lexer) (scanned : Checked (Option Token × Lexer)) (lexeme : Lexeme) : Prop :=
  ∃ hadvance : l.offset + (lexeme.readAt l.config l.offset).advance < addressLimit,
    scanned = .ok ((lexeme.readAt l.config l.offset).token,
      (l.moved _ hadvance).noted (lexeme.readAt l.config l.offset).problem)

/-- A scan is compared with a reading that has been worked out, and not with the lexeme itself.
Each scanner has its own form of the reading, which `hreading` gives. -/
theorem ScansAs.of_reading {scanned : Checked (Option Token × Lexer)} {lexeme : Lexeme}
    {reading : Reading} (hreading : lexeme.readAt l.config l.offset = reading)
    (hadvance : l.offset + reading.advance < addressLimit)
    (h : scanned = .ok (reading.token, (l.moved _ hadvance).noted reading.problem)) :
    l.ScansAs scanned lexeme := by
  subst hreading
  exact ⟨hadvance, h⟩

end Lexer

end Lexis
