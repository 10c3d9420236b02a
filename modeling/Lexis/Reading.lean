import Lexis.Config
import Lexis.Lexeme
import Lexis.Problem
import Lexis.Text.Utf8
import Lexis.Token.Basic

/-!
# `Lexis.Reading`: a lexeme in its place

`Lexeme.read` says what a lexeme that stands at an offset comes to: the token it makes, the
problem it has, and how far the cursor moves past it. It turns bytes into text and offsets
into spans, and so it is the part of scanning that could fault.

* `Lexeme.read_eq_ok`: it does not fault on a lexeme whose end is addressable.
* `Lexeme.eq_of_token`: what a token says, and which bytes it covers.
* `Lexeme.problem_readAt_cases`: what the problem of a lexeme can be.
-/

set_option autoImplicit false

namespace Lexis

/-- What a lexeme comes to. Without a token, no token follows: the scan ends there. A token and a
problem may come together. -/
structure Reading where
  token : Option Token
  problem : Option Problem
  /-- How many bytes the cursor moves. -/
  advance : Nat
  deriving DecidableEq, Repr, Inhabited

namespace Lexeme

/-- The payload of a word: a keyword if the whole word is reserved. -/
def wordPayload (letters : List UInt8) : Payload :=
  let text := Text.decode letters
  match Keyword.ofSpelling? text with
  | some reserved => .keyword (.keyword reserved)
  | none => .ident text

/-- The payload of a byte that stands alone: a symbol if it is one. -/
def singlePayload (b : UInt8) : Payload :=
  match Symbol.ofByte? b with
  | some sign => .symbol (.symbol sign)
  | none => .unknown (Text.decode [b])

/-- The number that a run is, unless it has more than one dot. -/
def numberKind? (run : List UInt8) : Option NumberKind :=
  if run.count Byte.dot = 0 then some .int
  else if run.count Byte.dot = 1 then some .float
  else none

/-- How many bytes come before the dot that follows `dots` others, or all of them if there
are not as many dots. The count starts at `seen`. -/
def lengthToDot (dots seen : Nat) : List UInt8 → Nat
  | [] => seen
  | b :: rest =>
    if b == Byte.dot && dots == 0 then seen
    else lengthToDot (if b == Byte.dot then dots - 1 else dots) (seen + 1) rest

/-- How many bytes of a run come before its second dot. -/
def lengthToSecondDot (run : List UInt8) : Nat := lengthToDot 1 0 run

/-- The content of a line comment without the carriage return at its end, which belongs to
the line break. -/
def withoutReturn (content : List UInt8) : List UInt8 :=
  if content.getLast? == some Byte.carriageReturn then content.dropLast else content

/-- Which bytes of a lexeme the span of its token covers: how many it leaves out in front,
and how many it takes. -/
def covered (config : Config) : Lexeme → Nat × Nat
  | .quoted quote value isTerminated =>
    match config.quoteSpan with
    | .content => (1, value.length)
    | .delimited => (0, (Lexeme.quoted quote value isTerminated).width)
  | lexeme => (0, lexeme.width)

/-- What a lexeme comes to whose bytes stand at the span `whole`, and those that its token covers
at the span `span`. Only two lexemes have a problem, a number with two dots and a block comment
that is left open, and only the first can be without a token. -/
def reading (config : Config) (whole span : Span) (lexeme : Lexeme) : Reading :=
  let token (payload : Payload) : Reading := ⟨some ⟨payload, span⟩, none, lexeme.width⟩
  match lexeme with
  | .word letters => token (wordPayload letters)
  | .number run =>
    let text := Text.decode run
    match numberKind? run with
    | some kind => token (.literal (.number kind text .decimal))
    | none =>
      let problem : Problem := ⟨.malformedNumber text, whole⟩
      match config.malformedNumber with
      | .suppress => ⟨none, some problem, lengthToSecondDot run⟩
      | .errorToken => { token (.unknown text) with problem := some problem }
  | .quoted quote value isTerminated =>
    token (.literal (.quoted quote (Text.decode value) isTerminated))
  | .lineComment isDoc content =>
    token (.comment ⟨.line, isDoc, Text.decode (withoutReturn content)⟩)
  | .blockComment isDoc content openDepth =>
    let closed := token (.comment ⟨.block, isDoc, Text.decode content⟩)
    if openDepth = 0 then closed
    else { closed with problem := some ⟨.unterminatedComment openDepth, whole⟩ }
  | .single b => token (singlePayload b)

/-- What a lexeme at offset `start` comes to. The spans of the lexeme and of its token are built
with their ends checked, and this is the only part of reading that can fault. -/
def read (config : Config) (start : Nat) (lexeme : Lexeme) : Checked Reading := do
  let whole ← Span.make start lexeme.width
  let first ← Fault.offsetAfter start (lexeme.covered config).1
  let span ← Span.make first (lexeme.covered config).2
  return lexeme.reading config whole span

/-! ### Small laws -/

/-- A token covers no byte outside of its lexeme. It covers less than the lexeme only for a
literal whose span leaves out the quotes. -/
theorem covered_le_width (config : Config) (lexeme : Lexeme) :
    (lexeme.covered config).1 + (lexeme.covered config).2 ≤ lexeme.width := by
  cases lexeme with
  | quoted quote value isTerminated =>
      rw [covered]
      cases config.quoteSpan with
      | content =>
          simp only [width, spelling, List.length_append, List.length_cons]
          omega
      | delimited => exact Nat.le_of_eq (Nat.zero_add _)
  | _ => exact Nat.le_of_eq (Nat.zero_add _)

/-- What a lexeme at offset `start` comes to, if its end is addressable. -/
def readAt (config : Config) (start : Nat) (lexeme : Lexeme) : Reading :=
  lexeme.reading config ⟨start, lexeme.width⟩
    ⟨start + (lexeme.covered config).1, (lexeme.covered config).2⟩

/-- Reading does not fault on a lexeme whose end is addressable, and then it is `readAt`. The
token's span lies within the lexeme, so its end needs no condition of its own. -/
theorem read_eq_ok (config : Config) {start : Nat} {lexeme : Lexeme}
    (h : start + lexeme.width < addressLimit) :
    lexeme.read config start = .ok (lexeme.readAt config start) := by
  have hcovered := lexeme.covered_le_width config
  have hfirst : start + (lexeme.covered config).1 < addressLimit := by omega
  have hspan : start + (lexeme.covered config).1 + (lexeme.covered config).2 < addressLimit := by
    omega
  rw [read, Span.make_eq_ok h, Fault.offsetAfter_eq_ok hfirst]
  show (Span.make _ _ >>= _) = _
  rw [Span.make_eq_ok hspan]
  rfl

/-- When there are more than `dots` dots, the one after `dots` others lies within the bytes, and
the count stops short of the end. -/
theorem lengthToDot_lt {dots seen : Nat} {run : List UInt8} (h : dots < run.count Byte.dot) :
    lengthToDot dots seen run < seen + run.length := by
  induction run generalizing dots seen with
  | nil => simp at h
  | cons b rest ih =>
      rw [lengthToDot, List.length_cons]
      split
      · omega
      · next hstop =>
          have hcount : (if b == Byte.dot then dots - 1 else dots) < rest.count Byte.dot := by
            rw [List.count_cons] at h
            -- A dot that is passed over is one less to come, on either side.
            cases hb : b == Byte.dot with
            | false => simpa [hb] using h
            | true =>
                simp only [hb, Bool.true_and, beq_iff_eq, if_true] at h hstop ⊢
                omega
          have := @ih _ (seen + 1) hcount
          omega

/-- The second dot of a run with more than one lies within the run. A scan that stops there has
moved over less than the run. -/
theorem lengthToSecondDot_lt {run : List UInt8} (h : numberKind? run = none) :
    lengthToSecondDot run < run.length := by
  have hcount : 1 < run.count Byte.dot := by
    rw [numberKind?] at h
    split at h
    · cases h
    · split at h
      · cases h
      · omega
  simpa [lengthToSecondDot] using @lengthToDot_lt _ 0 _ hcount

/-- The cursor moves past the whole lexeme if a token comes of it. Only a malformed number that is
suppressed leaves a part of its lexeme ahead. -/
theorem advance_readAt {config : Config} {start : Nat} {lexeme : Lexeme}
    (h : (lexeme.readAt config start).token.isSome = true) :
    (lexeme.readAt config start).advance = lexeme.width := by
  rw [readAt] at h ⊢
  cases lexeme with
  | number run =>
      rw [reading] at h ⊢
      cases hkind : numberKind? run with
      | some kind => rfl
      | none =>
          cases hmode : config.malformedNumber with
          | suppress => simp [hkind, hmode] at h
          | errorToken => rfl
  | blockComment isDoc content openDepth =>
      rw [reading]
      split <;> rfl
  | _ => rfl

/-- The cursor never moves past more than the lexeme. With `Lexeme.spelling_isPrefix` it stays
within the source. -/
theorem advance_readAt_le (config : Config) (start : Nat) (lexeme : Lexeme) :
    (lexeme.readAt config start).advance ≤ lexeme.width := by
  cases htoken : (lexeme.readAt config start).token.isSome with
  | true => exact Nat.le_of_eq (advance_readAt htoken)
  | false =>
      rw [readAt] at htoken ⊢
      cases lexeme with
      | number run =>
          rw [reading] at htoken ⊢
          cases hkind : numberKind? run with
          | some kind => exact Nat.le_refl _
          | none =>
              cases config.malformedNumber with
              | suppress => exact Nat.le_of_lt (lengthToSecondDot_lt hkind)
              | errorToken => exact Nat.le_refl _
      | blockComment isDoc content openDepth =>
          rw [reading]
          split <;> exact Nat.le_refl _
      | _ => exact Nat.le_refl _

/-- What the token of a lexeme says, if one comes of it. -/
def payload : Lexeme → Payload
  | .word letters => wordPayload letters
  | .number run =>
    match numberKind? run with
    | some kind => .literal (.number kind (Text.decode run) .decimal)
    | none => .unknown (Text.decode run)
  | .quoted quote value isTerminated => .literal (.quoted quote (Text.decode value) isTerminated)
  | .lineComment isDoc content => .comment ⟨.line, isDoc, Text.decode (withoutReturn content)⟩
  | .blockComment isDoc content _ => .comment ⟨.block, isDoc, Text.decode content⟩
  | .single b => singlePayload b

/-- What the choices decide about a token is its span, and whether there is one. What it says is
the lexeme's own `payload`, and its span is what is `covered`, moved to where the lexeme stands. -/
theorem eq_of_token {config : Config} {offset : Nat} {lexeme : Lexeme} {t : Token}
    (h : (lexeme.readAt config offset).token = some t) :
    t = ⟨lexeme.payload, ⟨offset + (lexeme.covered config).1, (lexeme.covered config).2⟩⟩ := by
  unfold readAt at h
  cases lexeme with
  | number run =>
      rw [reading] at h
      rw [payload]
      cases hkind : numberKind? run with
      | some kind =>
          simp only [hkind, Option.some.injEq] at h
          rw [← h]
      | none =>
          cases hmode : config.malformedNumber with
          | suppress => simp [hkind, hmode] at h
          | errorToken =>
              simp only [hkind, hmode, Option.some.injEq] at h
              rw [← h]
  | blockComment isDoc content openDepth =>
      rw [reading] at h
      dsimp only at h
      split at h
      · exact (Option.some.inj h).symm
      · exact (Option.some.inj h).symm
  | _ => exact (Option.some.inj h).symm

/-- The problem of a lexeme is that of a number with two dots, or of an open block comment. Its
span is the whole lexeme in either case, whatever the choices. -/
theorem problem_readAt_cases {config : Config} {offset : Nat} {lexeme : Lexeme}
    {problem : Problem} (h : (lexeme.readAt config offset).problem = some problem) :
    (∃ run, lexeme = .number run ∧ numberKind? run = none ∧
      problem = ⟨.malformedNumber (Text.decode run), ⟨offset, lexeme.width⟩⟩) ∨
    (∃ isDoc content depth, lexeme = .blockComment isDoc content (depth + 1) ∧
      problem = ⟨.unterminatedComment (depth + 1), ⟨offset, lexeme.width⟩⟩) := by
  unfold readAt at h
  cases lexeme with
  | number run =>
      rw [reading] at h
      cases hkind : numberKind? run with
      | some kind => simp [hkind] at h
      | none =>
          refine .inl ⟨run, rfl, hkind, ?_⟩
          cases hmode : config.malformedNumber with
          | suppress =>
              simp only [hkind, hmode, Option.some.injEq] at h
              exact h.symm
          | errorToken =>
              simp only [hkind, hmode, Option.some.injEq] at h
              exact h.symm
  | blockComment isDoc content openDepth =>
      cases openDepth with
      | zero => cases h
      | succ depth => exact .inr ⟨isDoc, content, depth, rfl, (Option.some.inj h).symm⟩
  | _ => cases h

end Lexeme

end Lexis
