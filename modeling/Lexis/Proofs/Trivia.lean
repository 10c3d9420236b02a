import Lexis.Proofs.Coverage
import Lexis.Proofs.LexemeText
import Lexis.Proofs.Order
import Lexis.TokenStream

/-!
# `Lexis.Proofs.Trivia`: comments are blanks

Where a comment stands, spaces could stand as well: the other tokens are the same, at the same
places. What stands in front of a comment ends in front of a space too, and behind a comment
the scan goes on as it does behind blanks. Lexemes that no run reads are left alone. The
theorems:

* `Lexeme.EndsBefore.of_beginsLike`: what ends before a comment ends before a space.
* `hides_blankOut`: putting spaces in place of comments replaces whole lexemes.
* `Hides.tokens`, `Hides.problems`: what a run over the new bytes comes to.
* `Hides.encoded`: the new bytes are a text.
* `drains_blankOut`: a source without its comments drains to what is left without trivia.
-/

set_option autoImplicit false

namespace Lexis

open Text (Encoded)

/-! ### Spaces in place of spans -/

/-- Bytes, the first of them at an offset, with a space in place of each byte that lies in one of
the spans. The number of bytes stays, and so do all offsets. -/
def blankOut (spans : List Span) (offset : Nat) : List UInt8 → List UInt8
  | [] => []
  | b :: rest =>
    (if spans.any (·.covers offset) then Byte.space else b) :: blankOut spans (offset + 1) rest

section BlankOut

variable {spans : List Span} {span : Span} {offset : Nat} {bytes : List UInt8}

/-- Putting spaces in keeps the number of bytes. -/
theorem length_blankOut (spans : List Span) (offset : Nat) (bytes : List UInt8) :
    (blankOut spans offset bytes).length = bytes.length := by
  induction bytes generalizing offset with
  | nil => rfl
  | cons b rest ih => rw [blankOut, List.length_cons, List.length_cons, ih]

/-- Spaces are put in part by part: which bytes are replaced depends on their offsets only. -/
theorem blankOut_append (spans : List Span) (offset : Nat) (front rest : List UInt8) :
    blankOut spans offset (front ++ rest)
      = blankOut spans offset front ++ blankOut spans (offset + front.length) rest := by
  induction front generalizing offset with
  | nil => rfl
  | cons b front ih =>
      rw [List.cons_append, blankOut, blankOut, ih, List.cons_append, List.length_cons,
        Nat.add_right_comm, Nat.add_assoc]

/-- Bytes in front of all spans stay. So a lexeme stays that stands in front of the first comment
that is still to come. -/
theorem blankOut_of_le_start (h : ∀ span ∈ spans, offset + bytes.length ≤ span.start) :
    blankOut spans offset bytes = bytes := by
  induction bytes generalizing offset with
  | nil => rfl
  | cons b rest ih =>
      have hout : spans.any (·.covers offset) = false := by
        rw [List.any_eq_false]
        intro span hspan
        have hstart := h span hspan
        rw [List.length_cons] at hstart
        simp only [Span.covers, Bool.and_eq_true, decide_eq_true_eq]
        omega
      have hrest : ∀ span ∈ spans, offset + 1 + rest.length ≤ span.start := by
        intro span hspan
        have hstart := h span hspan
        rw [List.length_cons] at hstart
        omega
      rw [blankOut, hout, if_neg Bool.false_ne_true, ih hrest]

/-- Bytes within one of the spans become spaces, whatever the other spans are. -/
theorem blankOut_of_mem (hspan : span ∈ spans) (hstart : span.start ≤ offset)
    (hstop : offset + bytes.length ≤ span.stop) :
    blankOut spans offset bytes = List.replicate bytes.length Byte.space := by
  induction bytes generalizing offset with
  | nil => rfl
  | cons b rest ih =>
      rw [List.length_cons] at hstop ⊢
      have hin : spans.any (·.covers offset) = true := by
        refine List.any_eq_true.mpr ⟨span, hspan, ?_⟩
        rw [Span.covers, Bool.and_eq_true, decide_eq_true_iff, decide_eq_true_iff]
        omega
      rw [blankOut, hin, if_pos rfl, ih (by omega) (by omega), List.replicate_succ]

/-- A span in front of all bytes changes none of them, and can be left out for what follows. -/
theorem blankOut_cons_of_stop_le (hstop : span.stop ≤ offset) :
    blankOut (span :: spans) offset bytes = blankOut spans offset bytes := by
  induction bytes generalizing offset with
  | nil => rfl
  | cons b rest ih =>
      have hout : span.covers offset = false := by
        simp only [Span.covers, Bool.and_eq_false_iff, decide_eq_false_iff_not]
        omega
      rw [blankOut, blankOut, List.any_cons, hout, Bool.false_or, ih (by omega)]

end BlankOut

/-! ### Before a space -/

/-- The bytes begin like others, or with a space where those begin with a slash. This is how the
new bytes compare with the old ones behind any lexeme that is kept. -/
def BeginsLike (rest rest' : List UInt8) : Prop :=
  rest'.head? = rest.head? ∨ rest.head? = some Byte.slash ∧ rest'.head? = some Byte.space

/-- A longest run ends before a space if no space belongs to it. What `BeginsLike` changes is the
first byte to a space, or nothing. -/
theorem LongestRun.of_beginsLike {belongs : UInt8 → Bool} {run rest rest' : List UInt8}
    (h : LongestRun belongs run rest) (hspace : belongs Byte.space = false)
    (hbegins : BeginsLike rest rest') : LongestRun belongs run rest' where
  within := h.within
  beyond := by
    intro b hb
    rcases hbegins with hsame | ⟨-, hblank⟩
    · rw [hsame] at hb
      exact h.beyond b hb
    · rw [hblank, Option.mem_some_iff] at hb
      rw [← hb, hspace]

/-! ### Comments and other lexemes -/

/-- Whether the token is trivia. -/
def Reading.isTrivia (reading : Reading) : Bool := reading.token.any (·.isTrivia)

namespace Lexeme

variable {config : Config} {comments : Bool} {offset : Nat} {lexeme : Lexeme}
  {rest rest' : List UInt8}

/-- Whether the lexeme is a comment. -/
def isComment : Lexeme → Bool
  | lineComment .. => true
  | blockComment .. => true
  | _ => false

/-- A comment makes a token that is trivia and covers all of it, under every configuration: a
comment has no quotes and is no number. -/
theorem exists_token_of_isComment (h : lexeme.isComment = true) :
    ∃ t, (lexeme.readAt config offset).token = some t ∧ t.isTrivia = true ∧
      t.span = ⟨offset, lexeme.width⟩ := by
  cases lexeme with
  | lineComment isDoc content => exact ⟨_, rfl, rfl, rfl⟩
  | blockComment isDoc content depth =>
      cases depth with
      | zero => exact ⟨_, rfl, rfl, rfl⟩
      | succ depth => exact ⟨_, rfl, rfl, rfl⟩
  | _ => cases h

/-- Only a comment makes the payload of one, and a token of such a kind. -/
theorem isComment_payload_and_kind (lexeme : Lexeme) :
    lexeme.payload.isComment = lexeme.isComment ∧
      lexeme.payload.kind.isComment = lexeme.isComment := by
  cases lexeme with
  | word letters =>
      simp only [payload, wordPayload]
      split
      · exact ⟨rfl, rfl⟩
      · exact ⟨rfl, rfl⟩
  | number run =>
      rw [payload]
      split
      · exact ⟨rfl, rfl⟩
      · exact ⟨rfl, rfl⟩
  | single b =>
      rw [payload, singlePayload]
      split
      · exact ⟨rfl, rfl⟩
      · exact ⟨rfl, rfl⟩
  | _ => exact ⟨rfl, rfl⟩

/-- A payload is a comment's if and only if the lexeme is a comment. -/
theorem isComment_payload (lexeme : Lexeme) : lexeme.payload.isComment = lexeme.isComment :=
  lexeme.isComment_payload_and_kind.1

/-- The kind of a token is that of a comment if and only if the lexeme is a comment. -/
theorem isComment_kind_payload (lexeme : Lexeme) :
    lexeme.payload.kind.isComment = lexeme.isComment :=
  lexeme.isComment_payload_and_kind.2

/-- Only a comment makes a token that is trivia, and every comment does. -/
theorem isTrivia_of_token {t : Token} (h : (lexeme.readAt config offset).token = some t) :
    t.isTrivia = lexeme.isComment := by
  rw [eq_of_token h]
  exact isComment_payload lexeme

/-- What a lexeme comes to is trivia if it is a comment. -/
theorem isTrivia_readAt (config : Config) (offset : Nat) (lexeme : Lexeme) :
    (lexeme.readAt config offset).isTrivia = lexeme.isComment := by
  rw [Reading.isTrivia]
  cases hcomment : lexeme.isComment with
  | true =>
      obtain ⟨t, htoken, htrivia, -⟩ := exists_token_of_isComment hcomment
      rw [htoken, Option.any_some, htrivia]
  | false =>
      cases htoken : (lexeme.readAt config offset).token with
      | none => rfl
      | some t => rw [Option.any_some, isTrivia_of_token htoken, hcomment]

/-- The problem of a lexeme that is not trivia is no open comment, and an open comment is the
one problem that trivia can have. -/
theorem filter_problem_readAt (config : Config) (offset : Nat) (lexeme : Lexeme) :
    (lexeme.readAt config offset).problem.filter (!·.cause.isUnterminatedComment)
      = if lexeme.isComment then none else (lexeme.readAt config offset).problem := by
  cases hproblem : (lexeme.readAt config offset).problem with
  | none => simp
  | some problem =>
      rw [Option.filter_some, isUnterminatedComment_of_problem hproblem]
      rcases problem_readAt_cases hproblem with ⟨_, rfl, -⟩ | ⟨_, _, _, rfl, -⟩
      · rfl
      · rfl

/-- What ends before a comment ends before a space, unless it is a comment itself. A comment is
left out because it is not kept; a line comment would not end before a space. -/
theorem EndsBefore.of_beginsLike (h : EndsBefore comments lexeme rest)
    (hcomment : lexeme.isComment = false) (hbegins : BeginsLike rest rest') :
    EndsBefore comments lexeme rest' := by
  cases h with
  | word hb hrun => exact .word hb (hrun.of_beginsLike (by decide) hbegins)
  | number hb hrun => exact .number hb (hrun.of_beginsLike (by decide) hbegins)
  | terminated hrun => exact .terminated ⟨hrun.within, hrun.beyond⟩
  | unterminated hrun hopen =>
      -- The end of the line comes next, and no comment.
      have hline := eq_lineFeed_of_unterminated hrun hopen
      rcases hbegins with hsame | ⟨hslash, -⟩
      · rw [← hsame] at hopen
        refine .unterminated ⟨hrun.within, ?_⟩ hopen
        rw [hsame]
        exact hrun.beyond
      · cases hline _ hslash
  | single halone =>
      refine .single { halone with comment := ?_ }
      intro hcomments hb
      obtain ⟨hslash, hstar⟩ := halone.comment hcomments hb
      rcases hbegins with hsame | ⟨-, hspace⟩
      · rw [hsame]
        exact ⟨hslash, hstar⟩
      · rw [hspace]
        decide
  | _ => cases hcomment

end Lexeme

/-! ### Spaces in place of comments -/

/-- Bytes, and the same bytes with spaces in place of the comments that a run reads. The first
byte has the offset `offset`. The rules follow the scan, and tell the lexemes that make a token
apart by whether they are comments. -/
inductive Hides (config : Config) : Nat → List UInt8 → List UInt8 → Prop where
  | done {offset : Nat} : Hides config offset [] []
  | blank {offset : Nat} {b : UInt8} {rest hidden : List UInt8} (hb : Byte.isBlank b = true)
      (h : Hides config (offset + 1) rest hidden) : Hides config offset (b :: rest) (b :: hidden)
  | kept {offset : Nat} {lexeme : Lexeme} {rest hidden : List UInt8} {t : Token}
      (hends : Lexeme.EndsBefore config.comments lexeme rest) (hcomment : lexeme.isComment = false)
      (htoken : (lexeme.readAt config offset).token = some t)
      (h : Hides config (offset + lexeme.width) rest hidden) :
      Hides config offset (lexeme.spelling ++ rest) (lexeme.spelling ++ hidden)
  | comment {offset : Nat} {lexeme : Lexeme} {rest hidden : List UInt8}
      (hends : Lexeme.EndsBefore config.comments lexeme rest) (hcomment : lexeme.isComment = true)
      (h : Hides config (offset + lexeme.width) rest hidden) :
      Hides config offset (lexeme.spelling ++ rest)
        (List.replicate lexeme.width Byte.space ++ hidden)
  /-- No comment is read behind a lexeme without a token. -/
  | stop {offset : Nat} {lexeme : Lexeme} {rest : List UInt8}
      (hends : Lexeme.EndsBefore config.comments lexeme rest)
      (htoken : (lexeme.readAt config offset).token = none) :
      Hides config offset (lexeme.spelling ++ rest) (lexeme.spelling ++ rest)

/-- The spans of the comments among the tokens of a run. -/
def triviaSpans (config : Config) (offset : Nat) (bytes : List UInt8) : List Span :=
  (((Lexeme.readings config offset bytes).filterMap (·.token)).filter (·.isTrivia)).map Token.span

section Hiding

variable {config : Config} {offset : Nat} {bytes hidden : List UInt8}

/-- Comments do not start in front of the bytes that they are found in. -/
theorem offset_le_of_mem_triviaSpans {span : Span} (h : span ∈ triviaSpans config offset bytes) :
    offset ≤ span.start := by
  obtain ⟨t, ht, rfl⟩ := List.mem_map.mp h
  obtain ⟨reading, hreading, htoken⟩ := List.mem_filterMap.mp (List.mem_filter.mp ht).1
  obtain ⟨p, hp, rfl⟩ := Lexeme.mem_readings hreading
  rw [Lexeme.eq_of_token htoken]
  exact Nat.le_trans (Lexeme.offset_le_of_mem_scan hp).1 (Nat.le_add_right _ _)

/-- A blank is no comment. -/
theorem triviaSpans_cons_of_isBlank {b : UInt8} (hb : Byte.isBlank b = true) (rest : List UInt8) :
    triviaSpans config offset (b :: rest) = triviaSpans config (offset + 1) rest := by
  rw [triviaSpans, Lexeme.readings_cons_of_isBlank hb]
  rfl

variable {lexeme : Lexeme} {rest : List UInt8}

/-- Behind a lexeme without a token no comment is read, since the run is over. Comments that stand
there are not found and stay what they are. -/
theorem triviaSpans_of_none (hends : Lexeme.EndsBefore config.comments lexeme rest)
    (htoken : (lexeme.readAt config offset).token = none) :
    triviaSpans config offset (lexeme.spelling ++ rest) = [] := by
  rw [triviaSpans, Lexeme.readings_of_none hends htoken, List.filterMap_cons_none htoken]
  rfl

/-- A lexeme that is no comment adds no span, and the comments behind it are found from its end
on. -/
theorem triviaSpans_of_not_comment {t : Token}
    (hends : Lexeme.EndsBefore config.comments lexeme rest) (hcomment : lexeme.isComment = false)
    (htoken : (lexeme.readAt config offset).token = some t) :
    triviaSpans config offset (lexeme.spelling ++ rest)
      = triviaSpans config (offset + lexeme.width) rest := by
  have hkept : ¬t.isTrivia = true := by
    rw [Lexeme.isTrivia_of_token htoken, hcomment]
    decide
  rw [triviaSpans, Lexeme.readings_of_some hends htoken, List.filterMap_cons_some htoken,
    List.filter_cons_of_neg hkept]
  rfl

/-- A comment adds the span of all its bytes, from its slash to its closer or to the end of its
line. -/
theorem triviaSpans_of_comment (hends : Lexeme.EndsBefore config.comments lexeme rest)
    (hcomment : lexeme.isComment = true) :
    triviaSpans config offset (lexeme.spelling ++ rest)
      = ⟨offset, lexeme.width⟩ :: triviaSpans config (offset + lexeme.width) rest := by
  obtain ⟨t, htoken, htrivia, hspan⟩ := Lexeme.exists_token_of_isComment hcomment
  rw [triviaSpans, Lexeme.readings_of_some hends htoken, List.filterMap_cons_some htoken,
    List.filter_cons_of_pos htrivia, List.map_cons, hspan]
  rfl

/-- Spaces in place of the comments of a run take the place of whole lexemes. So blanking byte by
byte is the same as following the scan, and what follows is proved by induction on `Hides`. -/
theorem hides_blankOut (config : Config) (offset : Nat) (bytes : List UInt8) :
    Hides config offset bytes (blankOut (triviaSpans config offset bytes) offset bytes) := by
  induction offset, bytes using Lexeme.scan_induction config.comments with
  | nil offset => exact .done
  | blank offset b rest hb ih =>
      have hfirst : blankOut (triviaSpans config (offset + 1) rest) offset [b] = [b] :=
        blankOut_of_le_start fun _ => offset_le_of_mem_triviaSpans
      rw [triviaSpans_cons_of_isBlank hb, ← List.singleton_append, blankOut_append, hfirst]
      exact .blank hb ih
  | lexeme offset lexeme rest hends ih =>
      have hsplit (spans : List Span) : blankOut spans offset (lexeme.spelling ++ rest)
          = blankOut spans offset lexeme.spelling
            ++ blankOut spans (offset + lexeme.width) rest :=
        blankOut_append spans offset lexeme.spelling rest
      cases htoken : (lexeme.readAt config offset).token with
      | none =>
          have hstays : blankOut [] offset (lexeme.spelling ++ rest) = lexeme.spelling ++ rest :=
            blankOut_of_le_start (by simp)
          rw [triviaSpans_of_none hends htoken, hstays]
          exact .stop hends htoken
      | some t =>
          cases hcomment : lexeme.isComment with
          | false =>
              have hstays : blankOut (triviaSpans config (offset + lexeme.width) rest) offset
                  lexeme.spelling = lexeme.spelling :=
                blankOut_of_le_start fun _ => offset_le_of_mem_triviaSpans
              rw [triviaSpans_of_not_comment hends hcomment htoken, hsplit, hstays]
              exact .kept hends hcomment htoken ih
          | true =>
              have hspaces : blankOut (⟨offset, lexeme.width⟩ ::
                  triviaSpans config (offset + lexeme.width) rest) offset lexeme.spelling
                    = List.replicate lexeme.width Byte.space :=
                blankOut_of_mem List.mem_cons_self (Nat.le_refl _) (Nat.le_refl _)
              have hlater : blankOut (⟨offset, lexeme.width⟩ ::
                  triviaSpans config (offset + lexeme.width) rest) (offset + lexeme.width) rest
                    = blankOut (triviaSpans config (offset + lexeme.width) rest)
                      (offset + lexeme.width) rest :=
                blankOut_cons_of_stop_le (Nat.le_refl _)
              rw [triviaSpans_of_comment hends hcomment, hsplit, hspaces, hlater]
              exact .comment hends hcomment ih

/-! ### What a run over the new bytes comes to -/

/-- A comment begins with a slash. Only such a byte changes when comments become spaces, as far as
what follows a lexeme is concerned. -/
theorem exists_spelling_of_isComment {comments : Bool}
    (hends : Lexeme.EndsBefore comments lexeme rest) (hcomment : lexeme.isComment = true) :
    ∃ tail, lexeme.spelling = Byte.slash :: tail := by
  cases hends with
  | lineComment => exact ⟨_, rfl⟩
  | closedComment => exact ⟨_, rfl⟩
  | openComment => exact ⟨_, rfl⟩
  | _ => cases hcomment

/-- Only where a comment was do the new bytes begin in another way, and then with a space. -/
theorem Hides.beginsLike (h : Hides config offset bytes hidden) :
    BeginsLike bytes hidden := by
  cases h with
  | done => exact .inl rfl
  | blank => exact .inl rfl
  | kept hends =>
      obtain ⟨b, tail, hspelling, -⟩ := Lexeme.exists_spelling_eq_cons hends
      rw [hspelling]
      exact .inl rfl
  | comment hends hcomment =>
      obtain ⟨tail, hspelling⟩ := exists_spelling_of_isComment hends hcomment
      rw [Lexeme.width, hspelling]
      exact .inr ⟨rfl, rfl⟩
  | stop => exact .inl rfl

/-- Spaces are blank. -/
theorem isBlank_of_mem_spaces {n : Nat} : ∀ b ∈ List.replicate n Byte.space,
    Byte.isBlank b = true := by
  intro b hb
  rw [List.eq_of_mem_replicate hb]
  decide

/-- A run over the new bytes reads the same lexemes except for the comments. The induction is on
how the bytes were hidden, and each kept lexeme still ends where it did. -/
theorem Hides.readings (h : Hides config offset bytes hidden) :
    Lexeme.readings config offset hidden
      = (Lexeme.readings config offset bytes).filter (!·.isTrivia) := by
  induction h with
  | done =>
      rw [Lexeme.readings_nil]
      rfl
  | blank hb _ ih => rw [Lexeme.readings_cons_of_isBlank hb, Lexeme.readings_cons_of_isBlank hb, ih]
  | @kept offset lexeme _ _ _ hends hcomment htoken h ih =>
      -- What comes next begins in the same way, or with a space, so that the lexeme ends there.
      have hends' := hends.of_beginsLike hcomment h.beginsLike
      have hkept : (!(lexeme.readAt config offset).isTrivia) = true := by
        rw [Lexeme.isTrivia_readAt, hcomment]
        rfl
      rw [Lexeme.readings_of_some hends htoken, Lexeme.readings_of_some hends' htoken, ih,
        List.filter_cons, if_pos hkept]
  | @comment offset lexeme _ _ hends hcomment _ ih =>
      obtain ⟨t, htoken, -⟩ := Lexeme.exists_token_of_isComment hcomment
      have hleft : ¬(!(lexeme.readAt config offset).isTrivia) = true := by
        rw [Lexeme.isTrivia_readAt, hcomment]
        decide
      rw [Lexeme.readings_of_some hends htoken,
        Lexeme.readings_append_of_isBlank isBlank_of_mem_spaces, List.length_replicate, ih,
        List.filter_cons, if_neg hleft]
  | @stop offset lexeme _ hends htoken =>
      have hkept : (!(lexeme.readAt config offset).isTrivia) = true := by
        rw [Reading.isTrivia, htoken]
        rfl
      rw [Lexeme.readings_of_none hends htoken, List.filter_cons, if_pos hkept, List.filter_nil]

/-- The tokens of the readings that are not trivia. -/
theorem filterMap_token_filter (readings : List Reading) :
    (readings.filter (!·.isTrivia)).filterMap (·.token)
      = (readings.filterMap (·.token)).filter (!·.isTrivia) := by
  rw [List.filterMap_filter, List.filter_filterMap]
  refine List.filterMap_congr ?_
  intro reading _
  rw [Reading.isTrivia]
  cases reading.token with
  | none => rfl
  | some t => rw [Option.any_some, Option.filter_some]

/-- The problems of the readings that are not trivia. These are all but that of an open block
comment, which is the one problem that a comment can have. -/
theorem filterMap_problem_filter (config : Config) (offset : Nat) (bytes : List UInt8) :
    ((Lexeme.readings config offset bytes).filter (!·.isTrivia)).filterMap (·.problem)
      = ((Lexeme.readings config offset bytes).filterMap (·.problem)).filter
          (!·.cause.isUnterminatedComment) := by
  rw [List.filterMap_filter, List.filter_filterMap]
  refine List.filterMap_congr ?_
  intro reading hreading
  obtain ⟨p, -, rfl⟩ := Lexeme.mem_readings hreading
  rw [Placed.reading, Lexeme.isTrivia_readAt, Lexeme.filter_problem_readAt]
  cases p.lexeme.isComment with
  | true => rfl
  | false => rfl

/-- The new bytes are a text if the old ones are. A comment begins and ends between characters,
and so do the spaces in its place. -/
theorem Hides.encoded (h : Hides config offset bytes hidden) (front : List UInt8)
    (hencoded : Encoded (front ++ bytes)) : Encoded (front ++ hidden) := by
  induction h generalizing front with
  | done => exact hencoded
  | blank _ _ ih =>
      rw [List.append_cons] at hencoded ⊢
      exact ih _ hencoded
  | kept _ _ _ _ ih =>
      rw [← List.append_assoc] at hencoded ⊢
      exact ih _ hencoded
  | @comment _ lexeme _ _ hends hcomment _ ih =>
      obtain ⟨tail, hspelling⟩ := exists_spelling_of_isComment hends hcomment
      obtain ⟨hfront, -, hrest⟩ :=
        Lexeme.encoded_of_endsBefore hends hencoded ⟨Byte.slash, tail, hspelling, by decide⟩
      have hspaces : Encoded (List.replicate lexeme.width Byte.space) := by
        refine Text.encoded_of_ascii ?_
        intro b hb
        rw [List.eq_of_mem_replicate hb]
        decide
      rw [← List.append_assoc]
      exact ih _ ((hfront.append hspaces).append hrest)
  | stop => exact hencoded

end Hiding

/-- Put spaces in place of the comments that a lexer finds in a source, and the same lexer finds
the tokens that are left without trivia, at the same places, and has the same problems except for
open comments. That the new bytes are a source again is part of the result. -/
theorem drains_blankOut (source : Source) (config : Config) :
    ∃ stream cleaned, TokenStream.ofLexer (Lexer.start source config) = .ok stream ∧
      cleaned.bytes
        = blankOut ((stream.tokens.filter (·.isTrivia)).map Token.span) 0 source.bytes ∧
      Lexer.Drains cleaned config stream.withoutTrivia.tokens
        (stream.problems.filter (!·.cause.isUnterminatedComment)) := by
  obtain ⟨last, hdrain, -, hproblems, -⟩ := Lexer.drain_start source config
  have hhides := hides_blankOut config 0 source.bytes
  have hencoded : Encoded (blankOut (triviaSpans config 0 source.bytes) 0 source.bytes) :=
    hhides.encoded [] ⟨source.text, source.bytes_eq⟩
  have hlength := source.length_lt
  rw [← length_blankOut (triviaSpans config 0 source.bytes) 0 source.bytes] at hlength
  let cleaned : Source := ⟨Text.decode _, _, (Text.bytes_decode hencoded).symm, hlength⟩
  have hstream : TokenStream.ofLexer (Lexer.start source config)
      = .ok ⟨(Lexeme.readings config 0 source.bytes).filterMap (·.token),
          last.problems.toList, 0⟩ := by
    rw [TokenStream.ofLexer, hdrain]
    rfl
  refine ⟨_, cleaned, hstream, rfl, ?_⟩
  have hdrains := Lexer.drains_readings cleaned config
  rw [show cleaned.bytes = _ from rfl, hhides.readings, filterMap_token_filter,
    filterMap_problem_filter, ← hproblems] at hdrains
  exact hdrains

end Lexis
