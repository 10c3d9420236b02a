import Lexis.Config
import Lexis.Problem
import Lexis.Source

/-!
# `Lexis.Lexer.Basic`: a cursor over the bytes of a source

A lexer stands at an offset of its source and remembers the problems found so far. Its
offset may go past the end of the source, though not past the last address. The bytes from
the offset on are kept with it, so that no step has to count from the start.

* `Lexer.ext`: a lexer is determined by what it remembers; the bytes ahead follow.
* `Lexer.peek_eq_ok`: looking at the next byte never faults.
* `Lexer.consume_eq_ok`: moving the cursor faults only past the last address.
* `Lexer.collectWhile` asks a predicate with a state of its own about byte after byte.
-/

set_option autoImplicit false

namespace Lexis

/-- A position in a source, with the problems recorded on the way there. The offset is bounded by
the last address and not by the end of the source, since the cursor may be moved past the end.
Then no byte is ahead. -/
structure Lexer where
  source : Source
  config : Config
  offset : Nat
  /-- Whether the last token has been asked for in vain. -/
  finished : Bool
  problems : Array Problem
  /-- The bytes from the offset on. -/
  rest : List UInt8
  rest_eq : rest = source.bytes.drop offset
  offset_lt : offset < addressLimit

namespace Lexer

/-- The lexer at the start of a source. -/
def start (source : Source) (config : Config) : Lexer where
  source := source
  config := config
  offset := 0
  finished := false
  problems := #[]
  rest := source.bytes
  rest_eq := rfl
  offset_lt := by decide

/-- Whether no byte is ahead. -/
def isAtEnd (l : Lexer) : Bool := l.rest.isEmpty

/-- The byte that stands `n` bytes ahead. -/
def peekAt (l : Lexer) (n : Nat) : Checked (Option UInt8) := do
  let _ ← Fault.offsetAfter l.offset n
  return l.rest[n]?

/-- The next byte. -/
def peek (l : Lexer) : Checked (Option UInt8) := l.peekAt 0

/-- The lexer `n` bytes further on, where an address is left for it. -/
def moved (l : Lexer) (n : Nat) (h : l.offset + n < addressLimit) : Lexer :=
  { l with
    offset := l.offset + n
    rest := l.rest.drop n
    rest_eq := by rw [l.rest_eq, List.drop_drop]
    offset_lt := h }

/-- The lexer `n` bytes further on, which may be past the end of the source. -/
def consume (l : Lexer) (n : Nat) : Checked Lexer :=
  if h : l.offset + n < addressLimit then .ok (l.moved n h)
  else .error (.unaddressable l.offset n)

/-- The next byte, and the lexer behind it. At the end the lexer stays. -/
def advance (l : Lexer) : Checked (Option UInt8 × Lexer) := do
  match ← l.peek with
  | none => return (none, l)
  | some b => return (some b, ← l.consume 1)

/-- The span of the `length` bytes before the cursor. -/
def spanBefore (l : Lexer) (length : Nat) : Checked Span :=
  if length ≤ l.offset then Span.make (l.offset - length) length
  else .error (.beforeSource l.offset length)

/-- The recorded problems, and the lexer without them. -/
def takeProblems (l : Lexer) : List Problem × Lexer :=
  (l.problems.toList, { l with problems := #[] })

/-! ### Collecting bytes -/

/-- How many bytes in a row a predicate accepts, counted from `accepted` on, and its state
after that. The predicate is asked about each byte once and in order, and not beyond the
first one that it rejects. -/
def acceptedFrom {σ : Type} (ask : σ → UInt8 → Bool × σ) (accepted : Nat) (state : σ) :
    List UInt8 → Nat × σ
  | [] => (accepted, state)
  | b :: rest =>
    match ask state b with
    | (true, next) => acceptedFrom ask (accepted + 1) next rest
    | (false, next) => (accepted, next)

/-- What `collectWhile` collects. -/
structure Collected (σ : Type) where
  /-- Whether no byte is left. -/
  atEnd : Bool
  /-- The text of the accepted bytes. -/
  text : String
  /-- The state of the predicate after its last answer. -/
  state : σ
  /-- The lexer behind the accepted bytes. -/
  lexer : Lexer

/-- Moves over the bytes that a predicate accepts. There is no text past the end of the source, so
that the lexer must not be there. At the end of the source itself nothing is accepted, and the
text is empty. -/
def collectWhile {σ : Type} (l : Lexer) (ask : σ → UInt8 → Bool × σ) (state : σ) :
    Checked (Collected σ) := do
  if l.source.size < l.offset then
    throw (.pastSource l.offset l.source.size)
  let (accepted, state) := acceptedFrom ask 0 state l.rest
  let behind ← l.consume accepted
  return {
    atEnd := behind.isAtEnd
    text := Text.decode (l.rest.take accepted)
    state := state
    lexer := behind }

/-! ### Small laws -/

/-- A lexer is determined by what it remembers. The bytes ahead follow from the source and the
offset, and need no comparing. -/
theorem ext {l m : Lexer} (hsource : l.source = m.source) (hconfig : l.config = m.config)
    (hoffset : l.offset = m.offset) (hfinished : l.finished = m.finished)
    (hproblems : l.problems = m.problems) : l = m := by
  obtain ⟨source, config, offset, finished, problems, rest, hrest, _⟩ := l
  obtain ⟨source', config', offset', finished', problems', rest', hrest', _⟩ := m
  cases hsource
  cases hconfig
  cases hoffset
  cases hfinished
  cases hproblems
  subst hrest hrest'
  rfl

/-- The number of bytes ahead. Past the end of the source there are none. -/
theorem length_rest (l : Lexer) : l.rest.length = l.source.size - l.offset := by
  rw [l.rest_eq, List.length_drop, l.source.length_bytes]

/-- A lexer is at the end exactly when its offset is that of the end, or past it, where a caller
may have moved it. -/
theorem isAtEnd_iff (l : Lexer) : l.isAtEnd = true ↔ l.source.size ≤ l.offset := by
  rw [isAtEnd, List.isEmpty_iff, ← List.length_eq_zero_iff, length_rest]
  omega

/-- Looking at the next byte never faults, since the offset is addressable wherever the lexer is. -/
theorem peek_eq_ok (l : Lexer) : l.peek = .ok l.rest.head? := by
  rw [peek, peekAt, Fault.offsetAfter_eq_ok l.offset_lt, List.head?_eq_getElem?]
  rfl

/-- A move within the bytes ahead does not lead past the last address. -/
theorem offset_add_lt (l : Lexer) {n : Nat} (h : n ≤ l.rest.length) :
    l.offset + n < addressLimit := by
  -- Up to the end of the source there is room. Past it no byte is ahead, and `n` is zero.
  have hlimit : addressLimit = Source.sizeLimit + Source.sizeLimit := by decide
  have hsize := l.source.size_lt
  have hoffset := l.offset_lt
  have hrest := l.length_rest
  omega

/-- The cursor moves where an address is left for it, be it past the end of the source. It is not
held at the end, and it need not come to lie between characters. -/
theorem consume_eq_ok {l : Lexer} {n : Nat} (h : l.offset + n < addressLimit) :
    l.consume n = .ok (l.moved n h) := by
  rw [consume, dif_pos h]

/-- Past the last address the cursor does not move, and the fault says from where and how far it
was to go. -/
theorem consume_eq_error {l : Lexer} {n : Nat} (h : addressLimit ≤ l.offset + n) :
    l.consume n = .error (.unaddressable l.offset n) := by
  rw [consume, dif_neg (Nat.not_lt.mpr h)]

end Lexer

end Lexis
