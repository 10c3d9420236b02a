import Lexis.Proofs.Calls
import Lexis.Proofs.Trivia

/-!
# `Lexis.Proofs.PlainSlashes`: a lexer that knows no comments

Where slashes begin no comments, each slash is a symbol, and so is the star of an opener. A
lexer with comments and one without read a source in the same way until the first of them
finds a comment. There the second one finds two symbols, and from then on the two have nothing
to do with each other. The theorems:

* `Lexeme.EndsBefore.withoutComments`: a lexeme that is no comment ends where it did.
* `Lexer.next_withoutComments`: one call that finds no comment, under the two choices, from
  which `Lexer.drain_withoutComments` follows for a run without comments.
* `Lexer.exists_next_signs`: where one lexer finds a comment, the other finds two symbols.
* `Lexer.exists_drain_signs`: a run with a comment, under the two choices.
* `drains_withoutComments`: the two runs over a source.
-/

set_option autoImplicit false

namespace Lexis

/-- The same choices, except that slashes begin no comments. -/
def Config.withoutComments (config : Config) : Config := { config with comments := false }

/-- The symbol that the second byte of a comment is where slashes begin no comments. -/
def CommentKind.secondSign : CommentKind → Symbol
  | line => .slash
  | block => .star

/-- A symbol at an offset. -/
def Symbol.tokenAt (sign : Symbol) (offset : Nat) : Token := ⟨.symbol (.symbol sign), ⟨offset, 1⟩⟩

/-! ### Lexemes without comments -/

namespace Lexeme

variable {comments : Bool} {lexeme : Lexeme} {offset : Nat} {rest : List UInt8}

/-- A lexeme that is no comment ends where it did, since none of its rules asks whether slashes
begin comments but that for a slash alone, which gets weaker. -/
theorem EndsBefore.withoutComments (h : EndsBefore comments lexeme rest)
    (hplain : lexeme.isComment = false) : EndsBefore false lexeme rest := by
  cases h with
  | word hb hrun => exact .word hb hrun
  | number hb hrun => exact .number hb hrun
  | terminated hrun => exact .terminated hrun
  | unterminated hrun hopen => exact .unterminated hrun hopen
  | single halone => exact .single { halone with comment := nofun }
  | _ => cases hplain

/-- No lexeme is a comment where slashes begin none. -/
theorem EndsBefore.isComment_eq_false (h : EndsBefore false lexeme rest) :
    lexeme.isComment = false := by
  cases h with
  | lineComment hcomments => cases hcomments
  | closedComment hcomments => cases hcomments
  | openComment hcomments => cases hcomments
  | _ => rfl

/-- Only an open block comment is open. -/
theorem isOpen_of_not_comment (h : lexeme.isComment = false) : lexeme.isOpen = false := by
  cases lexeme with
  | blockComment isDoc content depth => cases h
  | _ => rfl

/-- A comment is spelled with a slash and a second sign, which its kind decides. -/
theorem exists_spelling_of_payload {comment : Comment} (h : EndsBefore comments lexeme rest)
    (hpayload : lexeme.payload = .comment comment) :
    ∃ tail, lexeme.spelling = Byte.slash :: comment.kind.secondSign.byte :: tail := by
  have hcomment : lexeme.isComment = true := by
    rw [← isComment_payload, hpayload]
    rfl
  cases h with
  | lineComment =>
      cases hpayload
      exact ⟨_, rfl⟩
  | closedComment =>
      cases hpayload
      exact ⟨_, rfl⟩
  | openComment =>
      cases hpayload
      exact ⟨_, rfl⟩
  | _ => cases hcomment

/-- A slash stands alone where slashes begin no comments, whatever stands behind it. -/
theorem standsAlone_slash (rest : List UInt8) : StandsAlone false Byte.slash rest where
  blank := rfl
  word := rfl
  digit := rfl
  quote := by
    intro quote
    cases quote <;> decide
  comment := nofun

/-- The second sign of a comment stands alone as well, be it a slash or a star. -/
theorem standsAlone_secondSign (kind : CommentKind) (rest : List UInt8) :
    StandsAlone false kind.secondSign.byte rest where
  blank := by cases kind <;> rfl
  word := by cases kind <;> rfl
  digit := by cases kind <;> rfl
  quote := by
    intro quote
    cases kind <;> cases quote <;> decide
  comment := nofun

/-- The byte of a symbol is read as that symbol. -/
theorem singlePayload_byte (sign : Symbol) : singlePayload sign.byte = .symbol (.symbol sign) := by
  rw [singlePayload, (Symbol.ofByte?_eq_some_iff sign.byte sign).mpr rfl]

/-- The two signs of a comment are two lexemes where slashes begin no comments, and the scan goes
on behind them. -/
theorem scan_signs (offset : Nat) (kind : CommentKind) (rest : List UInt8) :
    scan false offset (Byte.slash :: kind.secondSign.byte :: rest)
      = ⟨offset, .single Byte.slash⟩ :: ⟨offset + 1, .single kind.secondSign.byte⟩
        :: scan false (offset + 2) rest := by
  have hslash : EndsBefore false (.single Byte.slash) (kind.secondSign.byte :: rest) :=
    .single (standsAlone_slash _)
  have hsign : EndsBefore false (.single kind.secondSign.byte) rest :=
    .single (standsAlone_secondSign kind rest)
  show scan false offset ((Lexeme.single Byte.slash).spelling ++ _) = _
  rw [scan_spelling_append hslash]
  show _ :: scan false (offset + 1) ((Lexeme.single kind.secondSign.byte).spelling ++ rest) = _
  rw [scan_spelling_append hsign]
  rfl

end Lexeme

/-! ### One call, and a run -/

namespace Lexer

variable {l m : Lexer}

/-- The same lexer under the choice that slashes begin no comments. -/
def withoutComments (l : Lexer) : Lexer := { l with config := l.config.withoutComments }

/-- What a call found that found a token: the token of the lexeme ahead, at its place behind the
blanks. -/
theorem exists_lexeme?_of_next {t : Token} (h : l.next = .ok (some t, m)) :
    l.finished = false ∧ ∃ lexeme, l.lexeme? = some lexeme ∧
      (lexeme.readAt l.config l.skipBlanks.offset).token = some t := by
  cases hfinished : l.finished with
  | true =>
      rw [next_of_finished hfinished] at h
      cases h
  | false =>
      cases hlexeme : l.lexeme? with
      | none =>
          rw [next_of_none hfinished hlexeme] at h
          cases h
      | some lexeme =>
          rw [next_of_some hfinished hlexeme, Except.ok.injEq, Prod.mk.injEq] at h
          exact ⟨rfl, lexeme, rfl, h.1⟩

/-- A lexeme ahead that is no comment is ahead as well where slashes begin no comments. -/
theorem lexeme?_withoutComments {lexeme : Lexeme} (h : l.lexeme? = some lexeme)
    (hplain : lexeme.isComment = false) : l.withoutComments.lexeme? = some lexeme := by
  obtain ⟨after, hafter, hends⟩ := exists_rest_eq_of_lexeme? h
  show Lexeme.ofBytes? false l.skipBlanks.rest = _
  rw [hafter]
  exact Lexeme.ofBytes?_of_endsBefore (hends.withoutComments hplain)

/-- A call that finds no comment has the same answer under the two choices, and comes to the same
state. So it is for a call that finds nothing, or that a malformed number ends. -/
theorem next_withoutComments {answer : Option Token} (h : l.next = .ok (answer, m))
    (hplain : ∀ t ∈ answer, t.isTrivia = false) :
    l.withoutComments.next = .ok (answer, m.withoutComments) := by
  cases hfinished : l.finished with
  | true =>
      rw [next_of_finished hfinished, Except.ok.injEq, Prod.mk.injEq] at h
      obtain ⟨rfl, rfl⟩ := h
      exact next_of_finished hfinished
  | false =>
      have hunfinished : l.withoutComments.finished = false := hfinished
      cases hlexeme : l.lexeme? with
      | none =>
          rw [next_of_none hfinished hlexeme, Except.ok.injEq, Prod.mk.injEq] at h
          obtain ⟨rfl, rfl⟩ := h
          -- Nothing but blanks is ahead, whatever slashes begin.
          have hnone : l.withoutComments.lexeme? = none :=
            Lexeme.ofBytes?_eq_none_iff.mpr (Lexeme.ofBytes?_eq_none_iff.mp hlexeme)
          exact next_of_none hunfinished hnone
      | some lexeme =>
          rw [next_of_some hfinished hlexeme, Except.ok.injEq, Prod.mk.injEq] at h
          obtain ⟨rfl, rfl⟩ := h
          have hcomment : lexeme.isComment = false := by
            rw [Bool.eq_false_iff]
            intro hcomment
            obtain ⟨t, htoken, htrivia, -⟩ := Lexeme.exists_token_of_isComment hcomment
            rw [hplain t htoken] at htrivia
            cases htrivia
          exact next_of_some hunfinished (lexeme?_withoutComments hlexeme hcomment)

/-- A call that finds a token other than a comment finds it under both choices. -/
theorem next_withoutComments_some {t : Token} (h : l.next = .ok (some t, m))
    (ht : t.isTrivia = false) : l.withoutComments.next = .ok (some t, m.withoutComments) := by
  refine next_withoutComments h ?_
  intro found hfound
  obtain rfl := Option.mem_some_iff.mp hfound
  exact ht

/-- A run that finds no comment finds the same tokens under the two choices, and ends in the same
state. The induction is along its calls, each of which is one of `next_withoutComments`. -/
theorem drain_withoutComments {tokens : List Token} (h : l.drain = .ok (tokens, m))
    (hplain : ∀ t ∈ tokens, t.isTrivia = false) :
    l.withoutComments.drain = .ok (tokens, m.withoutComments) := by
  refine drain_induction (motive := fun l tokens last => (∀ t ∈ tokens, t.isTrivia = false) →
    l.withoutComments.drain = .ok (tokens, last.withoutComments)) ?none ?some h hplain
  case none =>
    intro l last hnext _
    exact drain_of_none (next_withoutComments hnext nofun)
  case some =>
    intro l behind t tokens last hnext _ ih hplain
    obtain ⟨ht, hlater⟩ := List.forall_mem_cons.mp hplain
    rw [drain_of_some (next_withoutComments_some hnext ht), ih hlater]
    rfl

/-! ### Where the first comment is -/

/-- A call with a single byte ahead that is a symbol finds the symbol and moves over it. -/
theorem exists_next_of_ahead_sign {sign : Symbol} {offset : Nat} {later : List Placed}
    (hfinished : l.finished = false) (h : l.ahead = ⟨offset, .single sign.byte⟩ :: later) :
    ∃ behind : Lexer, l.next = .ok (some (sign.tokenAt offset), behind) ∧
      behind.finished = false ∧ behind.ahead = later := by
  have htoken : (Placed.reading l.config ⟨offset, .single sign.byte⟩).token
      = some (sign.tokenAt offset) := by
    show some (⟨Lexeme.singlePayload sign.byte, ⟨offset, 1⟩⟩ : Token) = _
    rw [Lexeme.singlePayload_byte]
    rfl
  obtain ⟨behind, hnext, -, -, -, hbehind, -, hlater⟩ := exists_next_of_ahead_cons hfinished h _ rfl
  rw [htoken] at hnext hbehind hlater
  exact ⟨behind, hnext, hbehind, (hlater rfl).1⟩

/-- Where a call finds a comment, a call under the other choice finds a slash at the start of the
comment, and the next call finds the second sign at the byte behind it. What comes after that
depends on the inside of the comment. -/
theorem exists_next_signs {comment : Comment} {span : Span}
    (h : l.next = .ok (some ⟨.comment comment, span⟩, m)) :
    ∃ first second : Lexer,
      l.withoutComments.next = .ok (some (Symbol.slash.tokenAt span.start), first) ∧
      first.next = .ok (some (comment.kind.secondSign.tokenAt (span.start + 1)), second) := by
  obtain ⟨hfinished, lexeme, hlexeme, htoken⟩ := exists_lexeme?_of_next h
  obtain ⟨after, hafter, hends⟩ := exists_rest_eq_of_lexeme? hlexeme
  have heq := Lexeme.eq_of_token htoken
  obtain ⟨tail, hspelling⟩ :=
    Lexeme.exists_spelling_of_payload hends (congrArg Token.payload heq).symm
  -- A comment is covered from its first byte on.
  have hstart : span.start = l.skipBlanks.offset := by
    have hcomment : lexeme.isComment = true := (Lexeme.isTrivia_of_token htoken).symm
    obtain ⟨t, htoken', -, hspan⟩ := Lexeme.exists_token_of_isComment hcomment
    rw [htoken, Option.some.injEq] at htoken'
    rw [← htoken'] at hspan
    exact congrArg Span.start hspan
  have hahead : l.withoutComments.ahead = ⟨span.start, .single Symbol.slash.byte⟩
      :: ⟨span.start + 1, .single comment.kind.secondSign.byte⟩
      :: Lexeme.scan false (span.start + 2) (tail ++ after) := by
    show Lexeme.scan false l.offset l.rest = _
    rw [← Lexeme.scan_dropWhile_isBlank, ← rest_skipBlanks, hafter, hspelling, hstart]
    exact Lexeme.scan_signs _ comment.kind (tail ++ after)
  have hunfinished : l.withoutComments.finished = false := hfinished
  obtain ⟨first, hfirst, hstill, hlater⟩ := exists_next_of_ahead_sign hunfinished hahead
  obtain ⟨second, hsecond, -, -⟩ := exists_next_of_ahead_sign hstill hlater
  exact ⟨first, second, hfirst, hsecond⟩

/-- A run that finds a comment, under the two choices. The calls in front of the comment find
the same tokens and lead to the same state. The call for the comment finds a slash instead, and
the call behind that one finds the second sign. -/
theorem exists_drain_signs {front later : List Token} {comment : Comment} {span : Span}
    (h : l.drain = .ok (front ++ ⟨.comment comment, span⟩ :: later, m))
    (hplain : ∀ t ∈ front, t.isTrivia = false) :
    ∃ behind later' last',
      l.serve (List.replicate front.length .token) = .ok ⟨front.map some, [], behind⟩ ∧
      l.withoutComments.serve (List.replicate front.length .token)
        = .ok ⟨front.map some, [], behind.withoutComments⟩ ∧
      l.withoutComments.drain = .ok (front ++ Symbol.slash.tokenAt span.start
        :: comment.kind.secondSign.tokenAt (span.start + 1) :: later', last') := by
  induction front generalizing l with
  | nil =>
      obtain ⟨found, hnext, -⟩ := exists_next_of_drain_cons h
      obtain ⟨first, second, hfirst, hsecond⟩ := exists_next_signs hnext
      obtain ⟨⟨later', last'⟩, hdrain⟩ := second.drain_eq_ok
      refine ⟨l, later', last', rfl, rfl, ?_⟩
      rw [drain_of_some hfirst, drain_of_some hsecond, hdrain]
      rfl
  | cons t front ih =>
      obtain ⟨found, hnext, hdrain⟩ := exists_next_of_drain_cons h
      obtain ⟨ht, hfront⟩ := List.forall_mem_cons.mp hplain
      have hnext' := next_withoutComments_some hnext ht
      obtain ⟨behind, later', last', hserve, hserve', hdrain'⟩ := ih hdrain hfront
      refine ⟨behind, later', last', serve_token hnext hserve, serve_token hnext' hserve', ?_⟩
      rw [drain_of_some hnext', hdrain']
      rfl

end Lexer

/-! ### The two runs -/

/-- How a run without comments, with `tokens'` and `last'`, compares with the run of `l` that has
comments, with `tokens` and `last`. Either there is no comment, or a first one, and nothing is
said of what the second run finds behind its two signs. -/
inductive SameUpToComment (l : Lexer) (tokens : List Token) (last : Lexer)
    (tokens' : List Token) (last' : Lexer) : Prop where
  /-- No token is a comment, and the runs are alike. -/
  | nowhere (hplain : ∀ t ∈ tokens, t.isTrivia = false) (htokens : tokens' = tokens)
      (hproblems : last'.problems = last.problems) (hoffset : last'.offset = last.offset)
  /-- The tokens in front of the first comment are the same, and so is all that the lexers
  remember when they have found them, their problems included. What comes next is a slash at
  the start of the comment, and the second sign of the comment behind it. -/
  | before (front later later' : List Token) (comment : Comment) (span : Span) (behind : Lexer)
      (hplain : ∀ t ∈ front, t.isTrivia = false)
      (htokens : tokens = front ++ ⟨.comment comment, span⟩ :: later)
      (htokens' : tokens' = front ++ Symbol.slash.tokenAt span.start
        :: comment.kind.secondSign.tokenAt (span.start + 1) :: later')
      (hserve : l.serve (List.replicate front.length .token) = .ok ⟨front.map some, [], behind⟩)
      (hserve' : l.withoutComments.serve (List.replicate front.length .token)
        = .ok ⟨front.map some, [], behind.withoutComments⟩)

/-- A run either finds no comment, or there is a first one. -/
theorem exists_first_comment (tokens : List Token) :
    (∀ t ∈ tokens, t.isTrivia = false) ∨ ∃ front comment span later,
      tokens = front ++ ⟨.comment comment, span⟩ :: later ∧
      ∀ t ∈ front, t.isTrivia = false := by
  cases hfind : tokens.find? (·.isTrivia) with
  | none =>
      refine .inl ?_
      intro t ht
      exact Bool.eq_false_iff.mpr (List.find?_eq_none.mp hfind t ht)
  | some first =>
      obtain ⟨htrivia, front, later, rfl, hfront⟩ := List.find?_eq_some_iff_append.mp hfind
      obtain ⟨payload, span⟩ := first
      cases payload with
      | comment comment =>
          refine .inr ⟨front, comment, span, later, rfl, ?_⟩
          intro t ht
          exact Bool.not_eq_true' _ ▸ hfront t ht
      | _ => cases htrivia

/-- Where slashes begin no comments, no reading of a run is a comment or has one for a problem,
open or not. -/
theorem Lexeme.readings_withoutComments {malformedNumber : MalformedNumber}
    {quoteSpan : QuoteSpan} {bytes : List UInt8} {reading : Reading}
    (h : reading ∈ readings ⟨false, malformedNumber, quoteSpan⟩ 0 bytes) :
    (∀ t, reading.token = some t → t.isTrivia = false) ∧
    ∀ problem, reading.problem = some problem → problem.cause.isUnterminatedComment = false := by
  obtain ⟨p, hp, rfl⟩ := mem_readings h
  obtain ⟨-, rest, -, -, hends⟩ := exists_of_mem_scan hp
  have hcomment := hends.isComment_eq_false
  constructor
  · intro t ht
    rw [isTrivia_of_token ht, hcomment]
  · intro problem hproblem
    rw [isUnterminatedComment_of_problem hproblem, isOpen_of_not_comment hcomment]

/-- The choice that slashes begin no comments matters from the first comment on only. A run under
this choice finds no comment and has no open one for a problem. Both runs are produced, for every
source and each of the other choices. -/
theorem drains_withoutComments (source : Source) (malformedNumber : MalformedNumber)
    (quoteSpan : QuoteSpan) :
    ∃ tokens last tokens' last',
      (Lexer.start source ⟨true, malformedNumber, quoteSpan⟩).drain = .ok (tokens, last) ∧
      (Lexer.start source ⟨false, malformedNumber, quoteSpan⟩).drain = .ok (tokens', last') ∧
      SameUpToComment (Lexer.start source ⟨true, malformedNumber, quoteSpan⟩)
        tokens last tokens' last' ∧
      (∀ t ∈ tokens', t.isTrivia = false) ∧
      ∀ problem ∈ last'.problems.toList, problem.cause.isUnterminatedComment = false := by
  obtain ⟨last, hdrain, -⟩ := Lexer.drain_start source ⟨true, malformedNumber, quoteSpan⟩
  obtain ⟨last', hdrain', -, hproblems', -⟩ :=
    Lexer.drain_start source ⟨false, malformedNumber, quoteSpan⟩
  refine ⟨_, last, _, last', hdrain, hdrain', ?_, ?_, ?_⟩
  · rcases exists_first_comment _ with hplain | ⟨front, comment, span, later, htokens, hplain⟩
    · have hsame : (Lexer.start source ⟨false, malformedNumber, quoteSpan⟩).drain = _ :=
        Lexer.drain_withoutComments hdrain hplain
      rw [hdrain', Except.ok.injEq, Prod.mk.injEq] at hsame
      obtain ⟨htokens, rfl⟩ := hsame
      exact .nowhere hplain htokens rfl rfl
    · rw [htokens] at hdrain ⊢
      obtain ⟨behind, later', _, hserve, hserve', hsigns⟩ :=
        Lexer.exists_drain_signs hdrain hplain
      have hsame : (Lexer.start source ⟨false, malformedNumber, quoteSpan⟩).drain = _ := hsigns
      rw [hdrain', Except.ok.injEq, Prod.mk.injEq] at hsame
      exact .before front later later' comment span behind hplain rfl hsame.1 hserve hserve'
  · intro t ht
    obtain ⟨reading, hreading, htoken⟩ := List.mem_filterMap.mp ht
    exact (Lexeme.readings_withoutComments hreading).1 t htoken
  · intro problem hproblem
    rw [hproblems'] at hproblem
    obtain ⟨reading, hreading, hfound⟩ := List.mem_filterMap.mp hproblem
    exact (Lexeme.readings_withoutComments hreading).2 problem hfound

end Lexis
