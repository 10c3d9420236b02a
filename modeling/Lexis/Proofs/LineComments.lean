import Lexis.Proofs.CommentGrammar
import Lexis.Proofs.LineEndings

/-!
# `Lexis.Proofs.LineComments`: line comments and the end of the line

A line comment goes from two slashes to the end of its line, and its content is what stands
behind the slashes and the mark of a doc comment. A carriage return at the end of the content is
left out, as a part of the line break that it makes with the line feed behind the comment. What
comes behind is not looked at, though: at the end of the source the carriage return is left out
too, where no line feed is. The theorems:

* `Lexeme.lineCommentAt_of_endsBefore`: what a line comment covers, byte for byte, and where this
  differs from leaving out the carriage returns of line breaks alone.
* `drains_lineComments`: so it is for the line comments of a run.
* `drains_returnAtEnd`: a comment whose last byte is lost.
-/

set_option autoImplicit false

namespace Lexis

open Text (Encoded)

/-- The bytes that a span covers. -/
def Source.covered (source : Source) (span : Span) : List UInt8 :=
  source.slice span.start span.stop

/-- The carriage return at the end of some bytes, if they end with one. -/
def lastReturn (bytes : List UInt8) : List UInt8 :=
  if bytes.getLast? = some Byte.carriageReturn then [Byte.carriageReturn] else []

/-- The carriage return at the end of a span, if it makes a line break with the byte behind the
span. -/
def Source.breakReturn (source : Source) (span : Span) : List UInt8 :=
  if source.bytes[span.stop]? = some Byte.lineFeed then lastReturn (source.covered span) else []

/-- How a line comment is written that stands at a span: where the span ends, whether it is a doc
comment, and which of the bytes of the span are its content. The last field tells where the code
leaves out more than the carriage return of a line break. -/
structure LineCommentAt (source : Source) (span : Span) (isDoc : Bool) (content : String) :
    Prop where
  /-- The span covers no line feed. -/
  within_line : Byte.lineFeed ∉ source.covered span
  /-- The span goes to the end of the line. -/
  line_end : ∀ b ∈ source.bytes[span.stop]?, b = Byte.lineFeed
  /-- It is a doc comment if there is a third slash in the line and no fourth. -/
  isDoc_iff : isDoc = true ↔ (source.covered span)[2]? = some Byte.slash ∧
    (source.covered span)[3]? ≠ some Byte.slash
  /-- The content is all behind the slashes, but for a carriage return at the end. -/
  covered_eq : source.covered span = Byte.slash :: Byte.slash :: (Lexeme.docSlash isDoc
    ++ (Text.bytes content ++ lastReturn (source.covered span)))
  /-- What is left out is the carriage return of a line break, unless the source ends with one. -/
  covered_eq_iff : source.covered span = Byte.slash :: Byte.slash :: (Lexeme.docSlash isDoc
      ++ (Text.bytes content ++ source.breakReturn span))
    ↔ ¬((source.covered span).getLast? = some Byte.carriageReturn ∧ span.stop = source.size)

/-- A carriage return at the end of a span that goes to the end of the line makes a line break
with what comes next, unless nothing does. So the two rules for leaving it out differ at the end
of the source only, and there only if the source ends with one. -/
theorem Source.breakReturn_eq_iff {source : Source} {span : Span} (hstop : span.stop ≤ source.size)
    (hend : ∀ b ∈ source.bytes[span.stop]?, b = Byte.lineFeed) :
    source.breakReturn span = lastReturn (source.covered span)
      ↔ ¬((source.covered span).getLast? = some Byte.carriageReturn ∧
        span.stop = source.size) := by
  rw [breakReturn]
  cases hnext : source.bytes[span.stop]? with
  | none =>
      have hsize : span.stop = source.size := by
        rw [List.getElem?_eq_none_iff, source.length_bytes] at hnext
        exact Nat.le_antisymm hstop hnext
      simp [lastReturn, hsize]
  | some b =>
      obtain rfl : b = Byte.lineFeed := hend b hnext
      have hlt : span.stop < source.size := by
        rw [← source.length_bytes]
        exact (List.getElem?_eq_some_iff.mp hnext).1
      simp [Nat.ne_of_lt hlt]

/-- Where the carriage return at the end is left out, only that of a line break is, or else the
source ends with it. The first fields are given (`hwithin`, `hend`, `hdoc`, `hcovered`), and the
last one follows. -/
theorem LineCommentAt.of_covered_eq {source : Source} {span : Span} {isDoc : Bool}
    {content : String} (hstop : span.stop ≤ source.size)
    (hwithin : Byte.lineFeed ∉ source.covered span)
    (hend : ∀ b ∈ source.bytes[span.stop]?, b = Byte.lineFeed)
    (hdoc : isDoc = true ↔ (source.covered span)[2]? = some Byte.slash ∧
      (source.covered span)[3]? ≠ some Byte.slash)
    (hcovered : source.covered span = Byte.slash :: Byte.slash :: (Lexeme.docSlash isDoc
      ++ (Text.bytes content ++ lastReturn (source.covered span)))) :
    LineCommentAt source span isDoc content where
  within_line := hwithin
  line_end := hend
  isDoc_iff := hdoc
  covered_eq := hcovered
  covered_eq_iff := by
    rw [← Source.breakReturn_eq_iff hstop hend]
    constructor
    · intro h
      have hsame := hcovered.symm.trans h
      simp only [List.cons.injEq, true_and, List.append_cancel_left_eq] at hsame
      exact hsame.symm
    · intro h
      rw [h]
      exact hcovered

namespace Lexeme

/-- Only a line comment makes a token of this kind. The token of any other lexeme is no comment or
one of a block. -/
theorem exists_lineComment_of_kind {lexeme : Lexeme} (h : lexeme.payload.kind = .lineComment) :
    ∃ isDoc content, lexeme = .lineComment isDoc content := by
  have hcomment : lexeme.isComment = true := by
    rw [← isComment_kind_payload, h]
    rfl
  cases lexeme with
  | lineComment isDoc content => exact ⟨isDoc, content, rfl⟩
  | blockComment => cases h
  | _ => cases hcomment

/-- The mark of a doc comment is looked for behind the two slashes, and stands in the third and
the fourth byte of the whole: a third slash and no fourth one. -/
theorem marksDocLine_iff {body : List UInt8} :
    marksDocLine body = true ↔ (Byte.slash :: Byte.slash :: body)[2]? = some Byte.slash ∧
      (Byte.slash :: Byte.slash :: body)[3]? ≠ some Byte.slash := by
  simp [marksDocLine]

/-- The content of a line comment without the carriage return at its end, and then what was left
out, is the content. -/
theorem withoutReturn_append_lastReturn (content : List UInt8) :
    withoutReturn content ++ lastReturn content = content := by
  unfold withoutReturn lastReturn
  by_cases hlast : content.getLast? = some Byte.carriageReturn
  · obtain ⟨front, rfl⟩ := List.getLast?_eq_some_iff.mp hlast
    simp
  · simp [hlast]

/-- A line comment ends with a carriage return if its content does. Where the content is empty it
ends with a slash. -/
theorem lastReturn_spelling (isDoc : Bool) (content : List UInt8) :
    lastReturn (Lexeme.lineComment isDoc content).spelling = lastReturn content := by
  have hopener : (Byte.slash :: Byte.slash :: docSlash isDoc).getLast? = some Byte.slash := by
    cases isDoc <;> rfl
  have hsplit : (Lexeme.lineComment isDoc content).spelling
      = (Byte.slash :: Byte.slash :: docSlash isDoc) ++ content := rfl
  rw [hsplit, lastReturn, lastReturn, List.getLast?_append, hopener]
  cases content.getLast? with
  | none => rfl
  | some b => rfl

/-- A line comment in a source, byte for byte. The span covers the spelling of the lexeme, and
what stands behind it is a line feed or nothing, which decides the rest. -/
theorem lineCommentAt_of_endsBefore {source : Source} {comments isDoc : Bool}
    {front rest content : List UInt8}
    (hends : EndsBefore comments (.lineComment isDoc content) rest)
    (hbytes : source.bytes = front ++ ((Lexeme.lineComment isDoc content).spelling ++ rest)) :
    LineCommentAt source ⟨front.length, (Lexeme.lineComment isDoc content).width⟩ isDoc
      (Text.decode (withoutReturn content)) := by
  have hcovered : source.covered ⟨front.length, (Lexeme.lineComment isDoc content).width⟩
      = (Lexeme.lineComment isDoc content).spelling := Source.slice_append hbytes
  have hstop : source.bytes[front.length + (Lexeme.lineComment isDoc content).width]?
      = rest.head? := by
    rw [hbytes, width, ← List.append_assoc, ← List.length_append,
      List.getElem?_append_right (Nat.le_refl _), Nat.sub_self, List.head?_eq_getElem?]
  have hencoded : Encoded (Lexeme.lineComment isDoc content).spelling :=
    (encoded_of_endsBefore hends (hbytes ▸ source.encoded_bytes)
      ⟨Byte.slash, _, rfl, by decide⟩).2.1
  have hshown : Text.bytes (Text.decode (withoutReturn content)) = withoutReturn content :=
    Text.bytes_decode (encoded_withoutReturn (encoded_lineContent hencoded))
  have hwithin := hends.lineFeed_not_mem rfl
  cases hends with
  | lineComment _ hdoc hrun =>
      have hend := eq_lineFeed_of_longestRun hrun
      rw [marksDocLine_append_of_lineEnd _ hend] at hdoc
      refine .of_covered_eq ?_ ?_ ?_ ?_ ?_
      · rw [← source.length_bytes, hbytes, Span.stop, List.length_append, List.length_append]
        exact Nat.add_le_add_left (Nat.le_add_right _ _) _
      · rw [hcovered]
        exact hwithin
      · show ∀ b ∈ source.bytes[front.length + (Lexeme.lineComment isDoc content).width]?, _
        rw [hstop]
        exact hend
      · rw [hcovered, spelling_lineComment, ← marksDocLine_iff, hdoc]
      · rw [hcovered, lastReturn_spelling, hshown, withoutReturn_append_lastReturn]
        rfl

end Lexeme

/-- The line comments of a run, byte for byte: each covers its line up to the line feed or the end
of the source, and its content is what stands behind the slashes, but for a carriage return at the
end. That carriage return belongs to a line break, unless it is the last byte of the source. -/
theorem drains_lineComments (source : Source) (malformedNumber : MalformedNumber)
    (quoteSpan : QuoteSpan) :
    ∃ tokens problems,
      Lexer.Drains source ⟨true, malformedNumber, quoteSpan⟩ tokens problems ∧
      ∀ t ∈ tokens, t.kind = .lineComment →
        ∃ isDoc content, t.payload = .comment ⟨.line, isDoc, content⟩ ∧
          LineCommentAt source t.span isDoc content := by
  refine ⟨_, _, Lexer.drains_readings source ⟨true, malformedNumber, quoteSpan⟩, ?_⟩
  intro t ht hkind
  obtain ⟨front, lexeme, rest, hbytes, hends, htoken⟩ := Lexeme.exists_of_mem_tokens ht
  obtain rfl := Lexeme.eq_of_token htoken
  obtain ⟨isDoc, content, rfl⟩ := Lexeme.exists_lineComment_of_kind hkind
  exact ⟨isDoc, _, rfl, Lexeme.lineCommentAt_of_endsBefore hends hbytes⟩

/-- A comment in front of a carriage return that ends the source. -/
def returnAtEnd : Source := ⟨"// x\r", _, rfl, by decide⟩

/-- The carriage return is left out of the content, although no line feed is behind it. -/
theorem drains_returnAtEnd :
    Lexer.Drains returnAtEnd {} [⟨.comment ⟨.line, false, " x"⟩, ⟨0, 5⟩⟩] [] ∧
    returnAtEnd.covered ⟨0, 5⟩ = Text.bytes "// x\r" ∧
    returnAtEnd.breakReturn ⟨0, 5⟩ = [] ∧
    returnAtEnd.covered ⟨0, 5⟩ ≠ Byte.slash :: Byte.slash :: (Lexeme.docSlash false
      ++ (Text.bytes " x" ++ returnAtEnd.breakReturn ⟨0, 5⟩)) := by
  refine ⟨⟨_, (Lexer.drain_of_some rfl).trans (congrArg _ (Lexer.drain_of_none rfl)), rfl⟩, ?_⟩
  decide

end Lexis
