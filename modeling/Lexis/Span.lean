import Lexis.Fault

/-!
# `Lexis.Span`: ranges of bytes

A span is the half-open range of bytes `[start, start + length)` of a source. Spans are
ordered by where they start, and of two with one start the shorter comes first.

* `Span.make` builds a span whose end is addressable, and faults on any other.
* `Span.compare_eq_lt_iff`: the order, spelled out.
-/

set_option autoImplicit false

namespace Lexis

/-- The bytes from `start` up to, and without, `start + length`. -/
structure Span where
  start : Nat := 0
  length : Nat := 0
  deriving DecidableEq, Repr, Inhabited

namespace Span

/-- The span of `length` bytes at `start`, provided that its end is addressable. Spans of the
scanner are built with it, so that computing the end of one never overflows. -/
def make (start length : Nat) : Checked Span := do
  let _ ← Fault.offsetAfter start length
  return ⟨start, length⟩

/-- The span from `start` up to `stop`. It is empty when `stop` comes first. -/
def between (start stop : Nat) : Checked Span := make start (stop - start)

/-- The span of `length` bytes with the start of `span`. -/
def resized (span : Span) (length : Nat) : Checked Span := make span.start length

/-- One past the last byte. -/
def stop (span : Span) : Nat := span.start + span.length

/-- Whether the span covers no byte. -/
def isEmpty (span : Span) : Bool := span.length == 0

/-- Whether `inner` lies entirely within `outer`. -/
def contains (outer inner : Span) : Bool :=
  outer.start ≤ inner.start && inner.stop ≤ outer.stop

/-- The span as many bytes further on. -/
def shift (span : Span) (bytes : Nat) : Span := { span with start := span.start + bytes }

/-- The order of spans: by start, then by length. -/
instance : Ord Span where
  compare a b := (compare a.start b.start).then (compare a.length b.length)

/-- The spans in ascending order. -/
def sorted (spans : List Span) : List Span :=
  spans.mergeSort fun a b => (compare a b).isLE

/-- The text of a span, `start..stop`. -/
def display (span : Span) : String := toString span.start ++ ".." ++ toString span.stop

/-- A span is built when its end is addressable. -/
theorem make_eq_ok {start length : Nat} (h : start + length < addressLimit) :
    make start length = .ok ⟨start, length⟩ := by
  rw [make, Fault.offsetAfter_eq_ok h]
  rfl

/-- Otherwise it is not, and the fault names the start and the length. -/
theorem make_eq_error {start length : Nat} (h : addressLimit ≤ start + length) :
    make start length = .error (.unaddressable start length) := by
  rw [make, Fault.offsetAfter_eq_error h]
  rfl

/-- The order of spans, spelled out: the one that starts first comes first, and of two with one
start the shorter one. `Ordering.then` keeps both comparisons out of sight otherwise. -/
theorem compare_eq_lt_iff (a b : Span) :
    compare a b = .lt ↔ a.start < b.start ∨ a.start = b.start ∧ a.length < b.length := by
  show (compare a.start b.start).then (compare a.length b.length) = .lt ↔ _
  rw [Ordering.then_eq_lt, Nat.compare_eq_lt, Nat.compare_eq_eq, Nat.compare_eq_lt]

end Span

end Lexis
