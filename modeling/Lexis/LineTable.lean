import Lexis.Byte
import Lexis.Source
import Lexis.Text.White

/-!
# `Lexis.LineTable`: where lines start

A line ends with a line feed, with a carriage return, or with the two in that order, which
count as one break. The table of a source lists the offsets where its lines start. Lines
are numbered from one.

* `LineTable.lineStartsFrom_eq`: the table, by recursion on the bytes.
-/

set_option autoImplicit false

namespace Lexis

/-- The offsets where lines start, in order. -/
structure LineTable where
  starts : List Nat
  deriving DecidableEq, Repr, Inhabited

namespace LineTable

/-- Whether a line ends with `b` when `rest` follows. A line feed always ends one. A carriage
return does so on its own, but leaves it to a line feed that comes next, so that the two count
once. -/
def endsLine (b : UInt8) (rest : List UInt8) : Bool :=
  b == Byte.lineFeed || b == Byte.carriageReturn && rest.head? != some Byte.lineFeed

/-- The offsets after each line break of the bytes, which stand at `offset`, behind those of
`done`, which is in reverse. -/
def lineStartsFrom (done : List Nat) (offset : Nat) : List UInt8 → List Nat
  | [] => done.reverse
  | b :: rest =>
    lineStartsFrom (if endsLine b rest then (offset + 1) :: done else done) (offset + 1) rest

/-- The table of a source. Its first line starts at zero. -/
def ofSource (s : Source) : LineTable := ⟨0 :: lineStartsFrom [] 0 s.bytes⟩

/-- The number of lines. -/
def count (table : LineTable) : Nat := table.starts.length

/-- The position in the table of the last line that starts at or before an offset. It is zero if
there is none, which a table made from a source never has, since its first line starts at zero. -/
def index (table : LineTable) (offset : Nat) : Nat :=
  table.starts.findIdx (offset < ·) - 1

/-- The offset at a position in the table, or zero past its end. -/
def startAt (table : LineTable) (index : Nat) : Nat := table.starts[index]?.getD 0

/-- The text of a line without its line break. There is none for a number that is no line's, nor
for a line that the table puts outside the source or across a character. All carriage returns and
line feeds at the end go, not one break only; a line of a table made from the source has no more
than one. -/
def lineText? (table : LineTable) (s : Source) : (line : Nat) → Option String
  | 0 => none
  | index + 1 =>
    match table.starts.drop index with
    | [] => none
    | start :: later => do
      let text ← s.textBetween? start (later.head?.getD s.size)
      return Text.dropEnd (fun c => c == '\n' || c == '\r') text

/-- The table, by recursion on the bytes: the first byte adds one start if it ends a line, and the
rest of the table is that of the bytes behind it. What was collected before stands in front. -/
theorem lineStartsFrom_eq (done : List Nat) (offset : Nat) (b : UInt8) (rest : List UInt8) :
    lineStartsFrom done offset (b :: rest)
      = done.reverse
        ++ (if endsLine b rest then [offset + 1] else [])
        ++ lineStartsFrom [] (offset + 1) rest := by
  -- What was collected stays in front throughout, so it can be taken out of the recursion.
  have hdone : ∀ (bytes : List UInt8) (done : List Nat) (offset : Nat),
      lineStartsFrom done offset bytes = done.reverse ++ lineStartsFrom [] offset bytes := by
    intro bytes
    induction bytes with
    | nil => intro done offset; simp [lineStartsFrom]
    | cons b rest ih =>
        intro done offset
        rw [lineStartsFrom, lineStartsFrom, ih, ih (if endsLine b rest then [offset + 1] else [])]
        split <;> simp
  rw [lineStartsFrom, hdone]
  split <;> simp

end LineTable

end Lexis
