import Lexis.LineTable
import Lexis.Problem

/-!
# `Lexis.Location`: spans as lines and columns

Resolving a span against a source and a line table gives the text it covers and the line
and the column where it starts. Lines and columns count from one, columns in bytes.

* A span that starts past the end of the source is a problem.
* Any other span faults if its end is not addressable.
* A table whose line starts after the span's start has no column to give, and faults. The
  table of the source itself never does.
-/

set_option autoImplicit false

namespace Lexis

/-- A span in terms of a source. -/
structure Location where
  /-- The text the span covers, as far as the source goes. -/
  excerpt : String
  line : Nat
  column : Nat
  /-- The length of the span, which may go past the end of the source. -/
  byteLength : Nat
  /-- The name of the source. -/
  name : Option String
  deriving DecidableEq, Repr, Inhabited

/-- Where a span lies in a source with a line table and a name. -/
def Span.resolve (span : Span) (source : Source) (table : LineTable) (name : Option String) :
    Checked (Except Problem Location) :=
  if source.size < span.start then
    return .error ⟨.spanOutOfBounds span.start source.size, span⟩
  else do
    let index := table.index span.start
    let lineStart := table.startAt index
    let stop ← Fault.offsetAfter span.start span.length
    if span.start < lineStart then
      throw (.lineAfterOffset lineStart span.start)
    else
      return .ok {
        excerpt := Text.decode (source.slice span.start stop)
        line := index + 1
        column := span.start - lineStart + 1
        byteLength := span.length
        name := name }

end Lexis
