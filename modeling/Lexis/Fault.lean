/-!
# `Lexis.Fault`: operations that may have no answer

Offsets and lengths are bytes, counted in 64-bit words. An operation whose arithmetic
leaves that range, or that asks for text outside its source, has no answer. It returns
a `Fault`, which says what was asked for.

* `Checked.bind_eq_ok_iff`: when two operations in a row have an answer.
* `Fault.offsetAfter_eq_ok`: moving an offset succeeds when the result is addressable.
* `Fault.offsetAfter_eq_error`: otherwise it faults.
-/

set_option autoImplicit false

namespace Lexis

/-- Offsets are below this bound. -/
def addressLimit : Nat := UInt64.size

/-- Widths that a line of output can be padded to are at most this. -/
def paddingLimit : Nat := 65535

/-- The reason why an operation has no answer. -/
inductive Fault where
  /-- The end of `length` bytes from `offset` on is not addressable. -/
  | unaddressable (offset length : Nat)
  /-- The `length` bytes before `offset` would start before the source does. -/
  | beforeSource (offset length : Nat)
  /-- Text was asked for at an offset past the end of a source of `size` bytes. -/
  | pastSource (offset size : Nat)
  /-- A line table puts the start of an offset's line after the offset. -/
  | lineAfterOffset (lineStart offset : Nat)
  /-- A line of output would have to be padded beyond `paddingLimit`. -/
  | paddingTooWide (width : Nat)
  deriving DecidableEq, Repr

/-- An answer, or the reason why there is none. -/
abbrev Checked (α : Type) := Except Fault α

/-- Two operations in a row have an answer when the first one has one, and the second one has that
answer for it. This takes apart every composed operation of the scanner and of the diagnostics
without unfolding it. -/
theorem Checked.bind_eq_ok_iff {α β : Type} {first : Checked α} {second : α → Checked β} {b : β} :
    first >>= second = .ok b ↔ ∃ a, first = .ok a ∧ second a = .ok b := by
  cases first with
  | error fault => exact ⟨nofun, nofun⟩
  | ok a => exact ⟨fun h => ⟨a, rfl, h⟩, fun ⟨_, rfl, h⟩ => h⟩

namespace Fault

/-- The offset `length` bytes after `offset`. -/
def offsetAfter (offset length : Nat) : Checked Nat :=
  if offset + length < addressLimit then .ok (offset + length)
  else .error (.unaddressable offset length)

/-- A move that ends below `addressLimit` reaches its end. This is the case of every move within a
source. -/
theorem offsetAfter_eq_ok {offset length : Nat} (h : offset + length < addressLimit) :
    offsetAfter offset length = .ok (offset + length) := by
  rw [offsetAfter, if_pos h]

/-- A move whose end would not fit in a word faults, and the fault keeps both of its parts. -/
theorem offsetAfter_eq_error {offset length : Nat} (h : addressLimit ≤ offset + length) :
    offsetAfter offset length = .error (.unaddressable offset length) := by
  rw [offsetAfter, if_neg (Nat.not_lt.mpr h)]

end Fault

end Lexis
