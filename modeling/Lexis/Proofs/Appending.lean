import Lexis.Proofs.Order

/-!
# `Lexis.Proofs.Appending`: a source that is written on

Whether a lexeme ends at a place is settled by its own bytes and the one byte that comes next.
So when text is put behind a source, only the last lexeme of the source can turn into another
one. Each lexeme in front of it has a byte behind it already, and that byte stays. The theorems:

* `Lexeme.EndsBefore.of_head?`: a lexeme ends where the byte behind it is the same, or where
  there is none.
* `Lexeme.dropLast_scan_isPrefix`: the lexemes of the longer source begin with those of the
  source except for the last one, and `Lexeme.dropLast_readings_isPrefix`: so do the readings.
* `drains_append`: the tokens except for the last one stay, and so do the problems that start
  before the last token.
-/

set_option autoImplicit false

namespace Lexis

/-! ### One byte ahead -/

/-- A run that is the longest one before some bytes is the longest one before others too that
begin with the same byte, and before none. Of what stands behind a run only the first byte is
looked at. -/
theorem LongestRun.of_head? {belongs : UInt8 → Bool} {run rest rest' : List UInt8}
    (h : LongestRun belongs run rest) (hnext : ∀ b ∈ rest'.head?, rest.head? = some b) :
    LongestRun belongs run rest' where
  within := h.within
  beyond := by
    intro b hb
    exact h.beyond b (hnext b hb)

namespace Lexeme

variable {comments : Bool} {lexeme : Lexeme} {offset : Nat} {rest rest' : List UInt8}

/-- At the end of a line the mark of a doc comment has been seen, if there is one. What follows is
a line feed or nothing (`hrest`), and neither of them is the third slash of a mark or the fourth
one that would undo it. -/
theorem marksDocLine_append_of_lineEnd (body : List UInt8)
    (hrest : ∀ b ∈ rest.head?, b = Byte.lineFeed) :
    marksDocLine (body ++ rest) = marksDocLine body := by
  cases rest with
  | nil => rw [List.append_nil]
  | cons b rest =>
      obtain rfl : b = Byte.lineFeed := hrest b rfl
      exact marksDocLine_append_cons (by decide) body rest

/-- Two bytes settle whether a body begins with the mark of a doc comment: the star, and the byte
behind it that must be no star and no slash. So a body of at least that length can be put in front
of any `tail`. -/
theorem marksDocBlock_append {body : List UInt8} (h : 2 ≤ body.length) (tail : List UInt8) :
    marksDocBlock (body ++ tail) = marksDocBlock body := by
  match body, h with
  | _ :: _ :: _, _ => rfl

/-- A lexeme that ends before some bytes ends before others too that begin with the same byte, and
it ends where nothing follows. One byte ahead is all that a lexer looks at to find the end of a
lexeme, and the cases are those of how a lexeme can end. -/
theorem EndsBefore.of_head? (h : EndsBefore comments lexeme rest)
    (hnext : ∀ b ∈ rest'.head?, rest.head? = some b) : EndsBefore comments lexeme rest' := by
  cases h with
  | word hb hrun => exact .word hb (hrun.of_head? hnext)
  | number hb hrun => exact .number hb (hrun.of_head? hnext)
  | terminated hrun =>
      -- The closing quote ends the literal, whatever comes behind it.
      exact .terminated ⟨hrun.within, hrun.beyond⟩
  | unterminated hrun hopen =>
      refine .unterminated (hrun.of_head? hnext) ?_
      intro hquote
      exact hopen (hnext _ hquote)
  | lineComment hcomments hdoc hrun =>
      have hrun' := hrun.of_head? hnext
      rw [marksDocLine_append_of_lineEnd _ (eq_lineFeed_of_longestRun hrun)] at hdoc
      refine .lineComment hcomments ?_ hrun'
      rw [marksDocLine_append_of_lineEnd _ (eq_lineFeed_of_longestRun hrun'), hdoc]
  | @closedComment isDoc content _ hcomments hdoc hnest =>
      have htwo : 2 ≤ (docStar isDoc ++ content ++ [Byte.star, Byte.slash]).length := by
        rw [List.length_append]
        exact Nat.le_add_left 2 _
      rw [marksDocBlock_append htwo] at hdoc
      refine .closedComment hcomments ?_ hnest
      rw [marksDocBlock_append htwo, hdoc]
  | openComment hcomments hdoc hnest =>
      -- Nothing stands behind an open comment.
      cases rest' with
      | nil => exact .openComment hcomments hdoc hnest
      | cons b rest' => cases hnext b rfl
  | single halone =>
      refine .single { halone with comment := ?_ }
      intro hcomments hb
      obtain ⟨hslash, hstar⟩ := halone.comment hcomments hb
      refine ⟨?_, ?_⟩
      · intro hhead
        exact hslash (hnext _ hhead)
      · intro hhead
        exact hstar (hnext _ hhead)

/-- More bytes behind those that follow a lexeme do not change that it ends there. There have to
be some already (`hrest`), since a lexeme at the end of a source may go on in the bytes that are
added. -/
theorem EndsBefore.append (h : EndsBefore comments lexeme rest) (hrest : rest ≠ [])
    (tail : List UInt8) : EndsBefore comments lexeme (rest ++ tail) := by
  obtain ⟨b, rest, rfl⟩ := List.exists_cons_of_ne_nil hrest
  refine h.of_head? ?_
  intro c hc
  exact hc

/-! ### The lexemes and the readings of the longer source -/

/-- All lexemes but the last one are the first lexemes of the longer source. The induction is
along the lexemes: each of them that has another one behind it has a byte behind it, so that
`EndsBefore.append` keeps it where it is. -/
theorem dropLast_scan_isPrefix (comments : Bool) (offset : Nat) (bytes tail : List UInt8) :
    (scan comments offset bytes).dropLast <+: scan comments offset (bytes ++ tail) := by
  induction offset, bytes using scan_induction comments with
  | nil offset =>
      rw [scan_nil]
      exact List.nil_prefix
  | blank offset b rest hb ih =>
      rw [List.cons_append, scan_cons_of_isBlank hb, scan_cons_of_isBlank hb]
      exact ih
  | lexeme offset lexeme rest hends ih =>
      rw [scan_spelling_append hends]
      by_cases hlast : scan comments (offset + lexeme.width) rest = []
      · rw [hlast]
        exact List.nil_prefix
      · -- Another lexeme follows, so that there is a byte behind this one.
        have hrest : rest ≠ [] := by
          rintro rfl
          exact hlast scan_nil
        rw [List.dropLast_cons_of_ne_nil hlast, List.append_assoc,
          scan_spelling_append (hends.append hrest tail), List.prefix_cons_inj]
        exact ih

end Lexeme

/-- A run over readings that go on in another way after their last one goes on in another way
after its last one. If it stops at a reading without a token, that reading is among those that
both have in common, or it is the last one and is left out. -/
theorem Reading.dropLast_untilStop_isPrefix {readings later : List Reading}
    (h : readings.dropLast <+: later) : (untilStop readings).dropLast <+: untilStop later := by
  induction readings generalizing later with
  | nil => exact List.nil_prefix
  | cons reading readings ih =>
      by_cases hlast : readings = []
      · subst hlast
        rw [untilStop]
        split
        · exact List.nil_prefix
        · exact List.nil_prefix
      · rw [List.dropLast_cons_of_ne_nil hlast] at h
        obtain ⟨more, rfl⟩ := h
        cases htoken : reading.token with
        | none =>
            rw [untilStop_cons_of_none htoken]
            exact List.nil_prefix
        | some t =>
            have hlater := ih (List.prefix_append readings.dropLast more)
            rw [untilStop_cons_of_some htoken, List.cons_append, untilStop_cons_of_some htoken]
            by_cases hstop : untilStop readings = []
            · rw [hstop]
              exact List.nil_prefix
            · rw [List.dropLast_cons_of_ne_nil hstop, List.prefix_cons_inj]
              exact hlater

/-- All readings but the last one are the first readings of the longer source. Readings are
lexemes as the configuration has them, up to the first one without a token, and both steps keep
what is in front of the last one. -/
theorem Lexeme.dropLast_readings_isPrefix (config : Config) (offset : Nat)
    (bytes tail : List UInt8) :
    (readings config offset bytes).dropLast <+: readings config offset (bytes ++ tail) := by
  refine Reading.dropLast_untilStop_isPrefix ?_
  rw [← List.map_dropLast]
  exact (dropLast_scan_isPrefix config.comments offset bytes tail).map _

/-! ### The last token -/

/-- The problems that start before the last one of the tokens. Without a token there are none. -/
def problemsBeforeLast (tokens : List Token) (problems : List Problem) : List Problem :=
  problems.filter fun problem => tokens.getLast?.any (problem.span.start < ·.span.start)

/-- What is found in all entries but the last one comes in front of all else that is found. If the
last entry has nothing to find, then one less is kept than could be, which does no harm. -/
theorem dropLast_filterMap_isPrefix {α β : Type} (find : α → Option β) (entries : List α) :
    (entries.filterMap find).dropLast <+: entries.dropLast.filterMap find := by
  rcases List.eq_nil_or_concat entries with rfl | ⟨front, last, rfl⟩
  · exact List.nil_prefix
  · rw [List.concat_eq_append, List.filterMap_append, List.dropLast_concat]
    cases hlast : find last with
    | none =>
        rw [List.filterMap_cons_none hlast, List.filterMap_nil, List.append_nil]
        exact List.dropLast_prefix _
    | some b =>
        rw [List.filterMap_cons_some hlast, List.filterMap_nil]
        exact ⟨[], (List.append_nil _).trans List.dropLast_concat⟩

/-- Where a property holds up to some entry and no longer, the entries that have it come first.
That is what `h` says of each two of them: when it holds of the later one, it holds of the earlier
one. -/
theorem filter_isPrefix {α : Type} {p : α → Bool} {entries : List α}
    (h : entries.Pairwise fun a b => p b = true → p a = true) : entries.filter p <+: entries := by
  induction h with
  | nil => exact List.prefix_rfl
  | @cons a later hlater _ ih =>
      cases ha : p a with
      | true =>
          rw [List.filter_cons_of_pos ha, List.prefix_cons_inj]
          exact ih
      | false =>
          have hnone : later.filter p = [] := by
            rw [List.filter_eq_nil_iff]
            intro b hb hpb
            rw [hlater b hb hpb] at ha
            cases ha
          rw [List.filter_cons_of_neg (by simp [ha]), hnone]
          exact List.nil_prefix

namespace Lexeme

variable {config : Config} {offset : Nat} {bytes : List UInt8}

/-- No token of a run starts behind the problem of its last reading. A token of an earlier reading
starts in front of that problem, and the token of the reading itself starts with it. -/
theorem start_le_of_last {front : List Reading} {last : Reading} {t : Token} {problem : Problem}
    (h : readings config offset bytes = front ++ [last]) (hproblem : last.problem = some problem)
    (ht : t ∈ (front ++ [last]).filterMap (·.token)) : t.span.start ≤ problem.span.start := by
  have hpair := pairwise_readings_span config offset bytes
  obtain ⟨reading, hreading, htoken⟩ := List.mem_filterMap.mp ht
  rw [h, List.pairwise_append] at hpair
  rcases List.mem_append.mp hreading with hfront | hlast
  · have hbefore := hpair.2.2 reading hfront last List.mem_cons_self t problem
    exact Nat.le_of_lt (hbefore.1 htoken hproblem)
  · obtain rfl := List.mem_singleton.mp hlast
    have hmem : reading ∈ readings config offset bytes := by
      rw [h]
      exact List.mem_append_right front List.mem_cons_self
    obtain ⟨p, -, rfl⟩ := mem_readings hmem
    exact Nat.le_of_eq (congrArg Span.start (span_eq_span htoken hproblem))

/-- The problems in front of the last token are problems of readings in front of the last, since a
problem of the last reading starts with the last token or behind it. They are the first ones of
them, since problems are in the order of their spans. -/
theorem problemsBeforeLast_isPrefix (config : Config) (offset : Nat) (bytes : List UInt8) :
    problemsBeforeLast ((readings config offset bytes).filterMap (·.token))
        ((readings config offset bytes).filterMap (·.problem))
      <+: (readings config offset bytes).dropLast.filterMap (·.problem) := by
  have hordered := inOrder_problems config offset bytes
  rcases List.eq_nil_or_concat (readings config offset bytes) with hnil | ⟨front, last, hconcat⟩
  · rw [hnil]
    exact List.nil_prefix
  · rw [List.concat_eq_append] at hconcat
    have hbehind : problemsBeforeLast ((front ++ [last]).filterMap (·.token))
        ([last].filterMap (·.problem)) = [] := by
      rw [problemsBeforeLast, List.filter_eq_nil_iff]
      intro problem hmem hbefore
      obtain ⟨reading, hreading, hproblem⟩ := List.mem_filterMap.mp hmem
      obtain rfl := List.mem_singleton.mp hreading
      obtain ⟨t, ht, hlt⟩ := (Option.any_eq_true _ _).mp hbefore
      have hle := start_le_of_last hconcat hproblem (List.mem_of_getLast? ht)
      exact Nat.not_lt.mpr hle (of_decide_eq_true hlt)
    rw [hconcat, List.filterMap_append, InOrder, List.map_append, List.pairwise_append,
      List.pairwise_map] at hordered
    rw [hconcat, List.dropLast_concat, List.filterMap_append (f := fun r : Reading => r.problem),
      problemsBeforeLast, List.filter_append]
    rw [problemsBeforeLast] at hbehind
    rw [hbehind, List.append_nil]
    refine filter_isPrefix (hordered.1.imp ?_)
    intro a b hab hb
    obtain ⟨t, ht, hlt⟩ := (Option.any_eq_true _ _).mp hb
    refine (Option.any_eq_true _ _).mpr ⟨t, ht, ?_⟩
    simp only [decide_eq_true_eq] at hlt ⊢
    omega

end Lexeme

/-- Put text behind a source, and at most its last token turns into something else. The others
stay the first tokens of the longer source, and the problems that start before the last token stay
the first problems. Both runs are produced, for every source, every text behind it and every
configuration. -/
theorem drains_append (config : Config) {source whole : Source} {tail : String}
    (htext : whole.text = source.text ++ tail) :
    ∃ tokens problems tokens' problems', Lexer.Drains source config tokens problems ∧
      Lexer.Drains whole config tokens' problems' ∧ tokens.dropLast <+: tokens' ∧
      problemsBeforeLast tokens problems <+: problems' := by
  have hbytes : whole.bytes = source.bytes ++ Text.bytes tail := by
    rw [whole.bytes_eq, htext, Text.bytes_append, ← source.bytes_eq]
  have hreadings := Lexeme.dropLast_readings_isPrefix config 0 source.bytes (Text.bytes tail)
  rw [← hbytes] at hreadings
  refine ⟨_, _, _, _, Lexer.drains_readings source config, Lexer.drains_readings whole config,
    ?_, ?_⟩
  · exact (dropLast_filterMap_isPrefix _ _).trans (hreadings.filterMap _)
  · exact (Lexeme.problemsBeforeLast_isPrefix config 0 source.bytes).trans (hreadings.filterMap _)

/-- A malformed number stays when the word behind it goes on: the last token of the shorter source
is another one in the longer source, and the number in front of it is the same, with its problem. -/
theorem drains_append_letter :
    (⟨"1.2.3 ab", _, rfl, by decide⟩ : Source).text
        = (⟨"1.2.3 a", _, rfl, by decide⟩ : Source).text ++ "b" ∧
      ∃ tokens problems, Lexer.Drains ⟨"1.2.3 ab", _, rfl, by decide⟩
          { malformedNumber := .errorToken } tokens problems ∧
        [⟨.unknown "1.2.3", ⟨0, 5⟩⟩] <+: tokens ∧
        [⟨.malformedNumber "1.2.3", ⟨0, 5⟩⟩] <+: problems := by
  let source : Source := ⟨"1.2.3 a", _, rfl, by decide⟩
  let whole : Source := ⟨"1.2.3 ab", _, rfl, by decide⟩
  let config : Config := { malformedNumber := .errorToken }
  have htext : whole.text = source.text ++ "b" := by decide
  have hsource : Lexer.Drains source config
      [⟨.unknown "1.2.3", ⟨0, 5⟩⟩, ⟨.ident "a", ⟨6, 1⟩⟩] [⟨.malformedNumber "1.2.3", ⟨0, 5⟩⟩] :=
    ⟨_, (Lexer.drain_of_some rfl).trans
      (congrArg _ ((Lexer.drain_of_some rfl).trans (congrArg _ (Lexer.drain_of_none rfl)))), rfl⟩
  obtain ⟨tokens, problems, tokens', problems', hdrains, hdrains', htokens, hproblems⟩ :=
    drains_append config htext
  obtain ⟨rfl, rfl⟩ := hsource.unique hdrains
  exact ⟨htext, tokens', problems', hdrains', htokens, hproblems⟩

end Lexis
