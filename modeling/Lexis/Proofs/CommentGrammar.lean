import Lexis.Proofs.Isolation
import Lexis.Proofs.Reports
import Lexis.Proofs.Trivia

/-!
# `Lexis.Proofs.CommentGrammar`: block comments as a grammar

Block comments nest. Their grammar has two nonterminals: a comment is an opener, a body and a
closer, and a body is made of comments and of single bytes at which no delimiter starts. A
lexer knows of no grammar and keeps a count instead, with an eye on the mark of a doc comment.
Both say the same. The theorems:

* `CommentGrammar.isComment_iff_nests`: a text is a comment of the grammar if the count of open
  comments comes to zero at its end and not before.
* `CommentGrammar.IsComment.eq_of_isPrefix`, `CommentGrammar.not_isComment_of_nests`: at most one
  front of a text is a comment, and none is where comments are left open.
* `length_unmatchedOpeners`: the count is the number of openers without a closer.
* `drains_commentGrammar`: the block comments of a run.
-/

set_option autoImplicit false

namespace Lexis

namespace CommentGrammar

/-- What the grammar has rules for. -/
inductive Nonterminal where
  | comment
  | body
  deriving DecidableEq, Repr

/-- The texts that the grammar derives where `next` stands behind them. Whether a delimiter starts
at the last byte of a body is seen from what follows the body: a star there is a byte like any
other unless a slash comes next. -/
inductive Derives : Nonterminal → (text next : List UInt8) → Prop where
  | comment {body next : List UInt8}
      (hbody : Derives .body body (Byte.star :: Byte.slash :: next)) :
      Derives .comment (Byte.slash :: Byte.star :: (body ++ [Byte.star, Byte.slash])) next
  | empty {next : List UInt8} : Derives .body [] next
  | nested {first rest next : List UInt8} (hfirst : Derives .comment first (rest ++ next))
      (hrest : Derives .body rest next) : Derives .body (first ++ rest) next
  | byte {b : UInt8} {rest next : List UInt8} (hb : startsDelimiter (b :: (rest ++ next)) = false)
      (hrest : Derives .body rest next) : Derives .body (b :: rest) next

/-- A text that is a comment of the grammar. A comment ends with its closer, so that what stands
behind it makes no difference, and nothing does here. -/
def IsComment (text : List UInt8) : Prop := Derives .comment text []

/-! ### Derivations and counts -/

/-- What the grammar derives leaves the count of open comments as it was, where at least one is
open. The induction is on the derivation: a comment adds one for its body and its closer takes it
away, and a byte at which no delimiter starts changes nothing. -/
theorem Derives.nests_append {nonterminal : Nonterminal} {text next : List UInt8}
    (h : Derives nonterminal text next) {depth after : Nat} (hnext : Nests (depth + 1) after next) :
    Nests (depth + 1) after (text ++ next) := by
  induction h generalizing depth with
  | @comment body next _ ih =>
      -- One comment more is open inside of the body, and the closer behind it ends this one.
      have hinner : Nests (depth + 2) after (body ++ Byte.star :: Byte.slash :: next) :=
        ih (.closer hnext)
      rw [List.cons_append, List.cons_append, List.append_assoc]
      exact .opener hinner
  | empty => exact hnext
  | nested _ _ ihfirst ihrest =>
      rw [List.append_assoc]
      exact ihfirst (ihrest hnext)
  | byte hb _ ih => exact .other hb (ih hnext)

/-- Bytes that consist of as many bodies as comments are open, each of them with its closer. With
one comment open this is a body, a closer and nothing else, which is the inside of a comment of
the grammar. -/
def Closes : (depth : Nat) → List UInt8 → Prop
  | 0, bytes => bytes = []
  | depth + 1, bytes => ∃ body rest, bytes = body ++ Byte.star :: Byte.slash :: rest ∧
      Derives .body body (Byte.star :: Byte.slash :: rest) ∧ Closes depth rest

/-- Bytes that close all open comments are made of bodies and closers. The induction is on the
count: an opener ahead makes one body more, and that one with its closer is a comment in the body
around it. -/
theorem closes_of_nests {depth : Nat} {bytes : List UInt8} (h : Nests depth 0 bytes) :
    Closes depth bytes := by
  generalize hafter : (0 : Nat) = after at h
  induction h with
  | done =>
      subst hafter
      rfl
  | opener _ ih =>
      -- The innermost body and its closer are a comment of the body around them.
      obtain ⟨inner, _, rfl, hinner, body, rest, rfl, hbody, hrest⟩ := ih hafter
      refine ⟨Byte.slash :: Byte.star :: (inner ++ [Byte.star, Byte.slash]) ++ body, rest,
        by simp, ?_, hrest⟩
      exact .nested (.comment hinner) hbody
  | @closer _ _ rest _ ih => exact ⟨[], rest, rfl, .empty, ih hafter⟩
  | @other _ _ b _ hb _ ih =>
      obtain ⟨body, rest, rfl, hbody, hrest⟩ := ih hafter
      exact ⟨b :: body, rest, rfl, .byte hb hbody, hrest⟩

/-- A text is a comment of the grammar if it begins with an opener and the count of open comments,
which is one behind it, comes to zero at its end. `Nests` goes no further than that, so that the
count is not zero before. -/
theorem isComment_iff_nests {text : List UInt8} :
    IsComment text ↔ ∃ inner, text = Byte.slash :: Byte.star :: inner ∧ Nests 1 0 inner := by
  constructor
  · intro h
    cases h with
    | @comment body _ hbody => exact ⟨_, rfl, hbody.nests_append (.closer .done)⟩
  · rintro ⟨inner, rfl, h⟩
    obtain ⟨body, rest, rfl, hbody, hrest⟩ := closes_of_nests h
    obtain rfl : rest = [] := hrest
    exact .comment hbody

/-- At most one front of a text is a comment, if the text is one itself: the count comes to zero
at one place only. So a comment of the grammar cannot end early. -/
theorem IsComment.eq_of_isPrefix {front text : List UInt8} (h : IsComment text)
    (hfront : IsComment front) (hbegins : front <+: text) : front = text := by
  obtain ⟨inner, rfl, hnest⟩ := isComment_iff_nests.mp h
  obtain ⟨inner', rfl, hnest'⟩ := isComment_iff_nests.mp hfront
  rw [List.prefix_cons_inj, List.prefix_cons_inj] at hbegins
  obtain ⟨rest, rfl⟩ := hbegins
  -- The scan ends at the closer of either of them.
  obtain ⟨hlength, hend⟩ := Lexeme.commentEnd_of_nests_zero hnest 0 []
  obtain ⟨hlength', hend'⟩ := Lexeme.commentEnd_of_nests_zero hnest' 0 rest
  rw [List.append_nil, hend', Prod.mk.injEq, List.length_append] at hend
  rw [List.length_append] at hlength
  have hrest : rest = [] := List.eq_nil_of_length_eq_zero (by omega)
  rw [hrest, List.append_nil]

/-- Where comments are left open, no front of the text is a comment: the count never comes to
zero, and it would at the end of a comment. -/
theorem not_isComment_of_nests {inner front : List UInt8} {depth : Nat}
    (h : Nests 1 (depth + 1) inner) (hbegins : front <+: Byte.slash :: Byte.star :: inner) :
    ¬IsComment front := by
  intro hfront
  obtain ⟨inner', rfl, hnest'⟩ := isComment_iff_nests.mp hfront
  rw [List.prefix_cons_inj, List.prefix_cons_inj] at hbegins
  obtain ⟨rest, rfl⟩ := hbegins
  obtain ⟨-, hend'⟩ := Lexeme.commentEnd_of_nests_zero hnest' 0 rest
  rw [Lexeme.commentEnd_of_nests_succ h 0, Prod.mk.injEq] at hend'
  exact Nat.succ_ne_zero depth hend'.2

end CommentGrammar

/-! ### Openers without a closer -/

/-- The places among the marks of the openers that have no closer, the last one first. Each
closer belongs to the last opener in front of it that has none yet. -/
def unmatchedOpeners (waiting : List Nat) (place : Nat) : List Mark → List Nat
  | [] => waiting
  | .opener :: later => unmatchedOpeners (place :: waiting) (place + 1) later
  | .closer :: later => unmatchedOpeners waiting.tail (place + 1) later
  | .plain :: later => unmatchedOpeners waiting (place + 1) later

/-- How many openers have no closer is what the count of open comments comes to. A closer without
an opener has none to match and does not bring the count below zero, on both sides. -/
theorem length_unmatchedOpeners (waiting : List Nat) (place : Nat) (found : List Mark) :
    (unmatchedOpeners waiting place found).length
      = found.foldl (fun depth mark => mark.count depth) waiting.length := by
  induction found generalizing waiting place with
  | nil => rfl
  | cons mark later ih =>
      cases mark with
      | opener => exact ih (place :: waiting) (place + 1)
      | closer =>
          rw [unmatchedOpeners, ih, List.length_tail]
          rfl
      | plain => exact ih waiting (place + 1)

/-- The inner comment is closed, and the outer one is not. -/
example : unmatchedOpeners [] 0 (marks (Text.bytes "/* /* */")) = [0] := by decide

/-- A comment that is left open with others in it has as many openers without a closer, its own
among them, as the count says that are open at its end. -/
theorem length_unmatchedOpeners_of_nests {inner : List UInt8} {depth : Nat}
    (h : Nests 1 depth inner) :
    (unmatchedOpeners [] 0 (marks (Byte.slash :: Byte.star :: inner))).length = depth := by
  rw [length_unmatchedOpeners, marks_opener]
  exact (nests_iff_counts.mp h).foldl_eq

/-! ### The block comments of a run -/

open CommentGrammar

/-- How the span of a block comment stands to the grammar. -/
inductive EndsByGrammar (source : Source) (problems : List Problem) (span : Span) : Prop where
  /-- What the span covers is a comment of the grammar, and it is over as soon as it can be. -/
  | closed (hquiet : problems.filter (·.span = span) = [])
      (hcomment : IsComment (source.slice span.start span.stop))
      (hshortest : ∀ front, front <+: source.slice span.start span.stop → IsComment front →
        front = source.slice span.start span.stop)
  /-- No comment of the grammar starts there. What is covered goes to the end of the source, and
  the problem says how many openers in it have no closer. -/
  | leftOpen (hstop : span.stop = source.size)
      (hnone : ∀ front, front <+: source.bytes.drop span.start → ¬IsComment front)
      (hproblem : problems.filter (·.span = span) = [⟨.unterminatedComment
        (unmatchedOpeners [] 0 (marks (source.slice span.start span.stop))).length, span⟩])

/-- Whether a text is a doc comment, as its third and its fourth byte tell. -/
def LooksLikeDoc (text : List UInt8) : Prop :=
  text[2]? = some Byte.star ∧ text[3]? ≠ some Byte.star ∧ text[3]? ≠ some Byte.slash

namespace Lexeme

/-- Only a block comment makes a token of this kind. The token of any other lexeme is no comment
or one of a line. -/
theorem exists_blockComment_of_kind {lexeme : Lexeme} (h : lexeme.payload.kind = .blockComment) :
    ∃ isDoc content depth, lexeme = .blockComment isDoc content depth := by
  have hcomment : lexeme.isComment = true := by
    rw [← isComment_kind_payload, h]
    rfl
  cases lexeme with
  | lineComment => cases h
  | blockComment isDoc content depth => exact ⟨isDoc, content, depth, rfl⟩
  | _ => cases hcomment

/-- The mark of a doc comment is looked for behind the opener, and stands in the third and the
fourth byte of the whole. -/
theorem marksDocBlock_iff {body : List UInt8} :
    marksDocBlock body = true ↔ LooksLikeDoc (Byte.slash :: Byte.star :: body) := by
  simp [marksDocBlock, LooksLikeDoc, and_assoc]

/-- A block comment is a doc comment if its text looks like one. What stands behind it is not
looked at: a closed comment has its closer behind the mark, and behind an open one nothing stands.
-/
theorem isDoc_iff_of_endsBefore {comments isDoc : Bool} {content rest : List UInt8} {depth : Nat}
    (h : EndsBefore comments (.blockComment isDoc content depth) rest) :
    isDoc = true ↔ LooksLikeDoc (Lexeme.blockComment isDoc content depth).spelling := by
  cases h with
  | closedComment _ hdoc _ =>
      have hlength : 2 ≤ (docStar isDoc ++ content ++ [Byte.star, Byte.slash]).length := by
        rw [List.length_append]
        exact Nat.le_add_left 2 _
      rw [marksDocBlock_append hlength] at hdoc
      rw [spelling_closedComment, ← marksDocBlock_iff, hdoc]
  | openComment _ hdoc _ => rw [spelling_openComment, ← marksDocBlock_iff, hdoc]

/-- A block comment in a source ends where the grammar says. `hspan` and `hproblems` tell what a
run has for it, its span and the problems at that span, and the two ways for a comment to end are
the two cases of `EndsByGrammar`. -/
theorem endsByGrammar_of_endsBefore {source : Source} {config : Config}
    {front rest content : List UInt8} {isDoc : Bool} {depth : Nat} {span : Span}
    {problems : List Problem}
    (hends : EndsBefore config.comments (.blockComment isDoc content depth) rest)
    (hbytes : source.bytes
      = front ++ ((Lexeme.blockComment isDoc content depth).spelling ++ rest))
    (hspan : span = ⟨front.length, (Lexeme.blockComment isDoc content depth).width⟩)
    (hproblems : problems.filter (·.span = span)
      = ((Lexeme.blockComment isDoc content depth).readAt config front.length).problem.toList) :
    EndsByGrammar source problems span := by
  have hslice : source.slice span.start span.stop
      = (Lexeme.blockComment isDoc content depth).spelling := by
    rw [hspan]
    exact Source.slice_append hbytes
  cases hends with
  | closedComment _ hdoc hnest =>
      have hcomment : IsComment (source.slice span.start span.stop) := by
        rw [hslice]
        exact isComment_iff_nests.mpr ⟨_, rfl, (nests_closed_iff hdoc).mpr hnest⟩
      refine .closed hproblems hcomment ?_
      intro first hbegins hfirst
      exact hcomment.eq_of_isPrefix hfirst hbegins
  | openComment _ hdoc hnest =>
      have hinner := (nests_open_iff hdoc).mpr hnest
      rw [spelling_openComment] at hslice
      refine .leftOpen ?_ ?_ ?_
      · rw [← source.length_bytes, hbytes, hspan, List.append_nil, List.length_append]
        rfl
      · rw [hbytes, hspan, List.drop_left, List.append_nil, spelling_openComment]
        intro first hbegins
        exact not_isComment_of_nests hinner hbegins
      · rw [hproblems, hslice, length_unmatchedOpeners_of_nests hinner, hspan]
        rfl

end Lexeme

/-- Each block comment of a run ends where the grammar says: with the one front of the text that
is a comment, or, where there is none, at the end of the source, with a problem that counts the
openers without a closer. The mark of a doc comment has no part in this. It is there if the third
byte is a star and the fourth is neither a star nor a slash. -/
theorem drains_commentGrammar (source : Source) (malformedNumber : MalformedNumber)
    (quoteSpan : QuoteSpan) :
    ∃ tokens problems,
      Lexer.Drains source ⟨true, malformedNumber, quoteSpan⟩ tokens problems ∧
      ∀ t ∈ tokens, t.kind = .blockComment →
        EndsByGrammar source problems t.span ∧
        ∃ isDoc content, t.payload = .comment ⟨.block, isDoc, content⟩ ∧
          (isDoc = true ↔ LooksLikeDoc (source.slice t.span.start t.span.stop)) := by
  refine ⟨_, _, Lexer.drains_readings source ⟨true, malformedNumber, quoteSpan⟩, ?_⟩
  intro t ht hkind
  obtain ⟨reading, hreading, htoken⟩ := List.mem_filterMap.mp ht
  obtain ⟨before, later, hreadings⟩ := List.append_of_mem hreading
  obtain ⟨p, hp, rfl⟩ := Lexeme.mem_readings hreading
  obtain ⟨front, rest, hbytes, hstart, hends⟩ := Lexeme.exists_of_mem_scan hp
  have hproblems := Lexeme.filter_problems_eq hreadings htoken
  obtain ⟨start, lexeme⟩ := p
  obtain rfl : start = front.length := hstart.trans (Nat.zero_add _)
  have heq := Lexeme.eq_of_token htoken
  rw [heq] at hkind
  obtain ⟨isDoc, content, depth, rfl⟩ := Lexeme.exists_blockComment_of_kind hkind
  have hspan : t.span = ⟨front.length, (Lexeme.blockComment isDoc content depth).width⟩ := by
    rw [heq]
    rfl
  have hslice : source.slice t.span.start t.span.stop
      = (Lexeme.blockComment isDoc content depth).spelling := by
    rw [hspan]
    exact Source.slice_append hbytes
  refine ⟨Lexeme.endsByGrammar_of_endsBefore hends hbytes hspan hproblems, isDoc,
    Text.decode content, congrArg Token.payload heq, ?_⟩
  rw [hslice]
  exact Lexeme.isDoc_iff_of_endsBefore hends

end Lexis
