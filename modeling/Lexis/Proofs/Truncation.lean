import Lexis.Proofs.Order

/-!
# `Lexis.Proofs.Truncation`: a run that a malformed number ends

A number with two dots makes an unknown token, or it ends the run. The two choices see the
same lexemes, and they read each of them the same up to the first such number. So the run
that ends there is the front of the run that goes on. The theorems:

* `Lexeme.readAt_suppress`: only a malformed number is read in two ways.
* `Lexeme.advance_suppress_bounds`: a run that ends at a malformed number ends within it.
* `Lexeme.readings_suppress`: what is read up to there.
* `drain_suppress`: the tokens, the problems and the end of the two runs.
-/

set_option autoImplicit false

namespace Lexis

/-- How a run that ends at a malformed number, with `tokens'` and `last'`, compares with the
one in which such a number makes a token, with `tokens` and `last`. -/
inductive CutShort (tokens : List Token) (last : Lexer) (tokens' : List Token) (last' : Lexer) :
    Prop where
  /-- No number is malformed, and the runs are alike. -/
  | nowhere
      (hclean : ∀ problem ∈ last.problems.toList, problem.cause.isMalformedNumber = false)
      (htokens : tokens' = tokens) (hproblems : last'.problems = last.problems)
      (hoffset : last'.offset = last.offset) (hend : last'.isAtEnd = true)
  /-- The first malformed number ends the run. It is the one problem there is, and all tokens
  stand in front of it. -/
  | within (first : Problem)
      (hfirst : last.problems.toList.find? (·.cause.isMalformedNumber) = some first)
      (htokens : tokens' = tokens.filter (·.span.start < first.span.start))
      (hproblems : last'.problems.toList = [first]) (hend : last'.isAtEnd = false)
      (hstart : first.span.start < last'.offset) (hstop : last'.offset < first.span.stop)

/-! ### One lexeme, read in two ways -/

namespace Lexeme

variable {comments : Bool} {quoteSpan : QuoteSpan} {offset : Nat} {lexeme : Lexeme}

/-- Only a malformed number is read in two ways. The choice does not matter to any other lexeme,
nor to a number with at most one dot. -/
theorem readAt_suppress (h : lexeme.isMalformed = false) :
    lexeme.readAt ⟨comments, .suppress, quoteSpan⟩ offset
      = lexeme.readAt ⟨comments, .errorToken, quoteSpan⟩ offset := by
  cases lexeme with
  | number run =>
      obtain ⟨kind, hkind⟩ : ∃ kind, numberKind? run = some kind := by
        rw [isMalformed, Option.isNone_eq_false_iff] at h
        exact Option.isSome_iff_exists.mp h
      simp only [readAt, reading, hkind]
      rfl
  | _ => rfl

/-- A malformed number makes no token where it ends the run. -/
theorem token_suppress (h : lexeme.isMalformed = true) :
    (lexeme.readAt ⟨comments, .suppress, quoteSpan⟩ offset).token = none := by
  cases lexeme with
  | number run =>
      have hkind : numberKind? run = none := by simpa [isMalformed] using h
      simp only [readAt, reading, hkind]
  | _ => cases h

/-- Every lexeme has the same problem under the two choices. A malformed number is recorded with
all of its text, even where the run ends within it. -/
theorem problem_suppress (lexeme : Lexeme) :
    (lexeme.readAt ⟨comments, .suppress, quoteSpan⟩ offset).problem
      = (lexeme.readAt ⟨comments, .errorToken, quoteSpan⟩ offset).problem := by
  cases hmalformed : lexeme.isMalformed with
  | false => rw [readAt_suppress hmalformed]
  | true =>
      cases lexeme with
      | number run =>
          have hkind : numberKind? run = none := by simpa [isMalformed] using hmalformed
          simp only [readAt, reading, hkind]
      | _ => cases hmalformed

/-- A lexeme that is neither malformed nor open has no problem, since there are no other causes. -/
theorem problem_eq_none {config : Config} (hmalformed : lexeme.isMalformed = false)
    (hopen : lexeme.isOpen = false) : (lexeme.readAt config offset).problem = none := by
  cases hproblem : (lexeme.readAt config offset).problem with
  | none => rfl
  | some problem =>
      rcases problem_readAt_cases hproblem with ⟨run, rfl, hkind, -⟩ | ⟨_, _, depth, rfl, -⟩
      · rw [isMalformed, hkind] at hmalformed
        cases hmalformed
      · cases hopen

/-- Looking for a dot does not go back over bytes that were seen already. -/
theorem le_lengthToDot (dots seen : Nat) (run : List UInt8) : seen ≤ lengthToDot dots seen run := by
  induction run generalizing dots seen with
  | nil => exact Nat.le_refl seen
  | cons b rest ih =>
      rw [lengthToDot]
      split
      · exact Nat.le_refl seen
      · exact Nat.le_of_succ_le (ih _ (seen + 1))

/-- A run that ends at a malformed number ends within it: behind its first digit, in front of its
second dot. -/
theorem advance_suppress_bounds (quoteSpan : QuoteSpan) (offset : Nat) {rest : List UInt8}
    (hends : EndsBefore comments lexeme rest) (h : lexeme.isMalformed = true) :
    0 < (lexeme.readAt ⟨comments, .suppress, quoteSpan⟩ offset).advance ∧
    (lexeme.readAt ⟨comments, .suppress, quoteSpan⟩ offset).advance < lexeme.width := by
  cases hends with
  | @number b run _ hb _ =>
      have hkind : numberKind? (b :: run) = none := by simpa [isMalformed] using h
      have hadvance : ((Lexeme.number (b :: run)).readAt ⟨comments, .suppress, quoteSpan⟩
          offset).advance = lengthToSecondDot (b :: run) := by
        simp only [readAt, reading, hkind]
      have hdot : (b == Byte.dot) = false := by
        have hne : b ≠ Byte.dot := by
          rintro rfl
          cases hb
        simpa using hne
      rw [hadvance]
      refine ⟨?_, lengthToSecondDot_lt hkind⟩
      rw [lengthToSecondDot, lengthToDot, hdot]
      exact le_lengthToDot 1 1 run
  | _ => cases h

/-! ### The lexemes of a run, read in two ways -/

variable {bytes : List UInt8}

/-- The readings of a run that ends at its first malformed number, if there is one. Those in front
of it are what they are under the other choice (`hfront`), and with the number itself the run
stops. -/
theorem readings_suppress {front later : List Placed} {p : Placed}
    (hscan : scan comments offset bytes = front ++ p :: later)
    (hfront : ∀ q ∈ front, q.lexeme.isMalformed = false) (hp : p.lexeme.isMalformed = true) :
    readings ⟨comments, .suppress, quoteSpan⟩ offset bytes
      = front.map (Placed.reading ⟨comments, .errorToken, quoteSpan⟩)
        ++ [p.reading ⟨comments, .suppress, quoteSpan⟩] := by
  have hsame : front.map (Placed.reading ⟨comments, .suppress, quoteSpan⟩)
      = front.map (Placed.reading ⟨comments, .errorToken, quoteSpan⟩) := by
    refine List.map_congr_left ?_
    intro q hq
    exact readAt_suppress (hfront q hq)
  have htokens : ∀ reading ∈ front.map (Placed.reading ⟨comments, .errorToken, quoteSpan⟩),
      reading.token.isSome = true := by
    intro reading hreading
    obtain ⟨q, -, rfl⟩ := List.mem_map.mp hreading
    exact token_errorToken q.lexeme
  have hstop : (p.reading ⟨comments, .suppress, quoteSpan⟩).token = none := token_suppress hp
  rw [readings, hscan, List.map_append, hsame, Reading.untilStop_append htokens, List.map_cons,
    Reading.untilStop_cons_of_none hstop]

/-- Without a malformed number the readings are the same under the two choices. -/
theorem readings_suppress_of_clean
    (h : ∀ p ∈ scan comments offset bytes, p.lexeme.isMalformed = false) :
    readings ⟨comments, .suppress, quoteSpan⟩ offset bytes
      = readings ⟨comments, .errorToken, quoteSpan⟩ offset bytes := by
  have hsame : (scan comments offset bytes).map (Placed.reading ⟨comments, .suppress, quoteSpan⟩)
      = (scan comments offset bytes).map
          (Placed.reading ⟨comments, .errorToken, quoteSpan⟩) := by
    refine List.map_congr_left ?_
    intro p hp
    exact readAt_suppress (h p hp)
  rw [readings, readings]
  exact congrArg Reading.untilStop hsame

/-- Tokens in front of a lexeme start before it, and it and those behind it do not. So looking at
where tokens start picks out those in front. -/
theorem filter_tokens_before {config : Config} {front later : List Placed} {p : Placed}
    (hscan : scan config.comments offset bytes = front ++ p :: later) :
    ((front ++ p :: later).filterMap fun q => (q.reading config).token).filter
        (·.span.start < p.start)
      = front.filterMap fun q => (q.reading config).token := by
  have hpair := pairwise_scan_covered config offset bytes
  rw [hscan, List.pairwise_append, List.pairwise_cons] at hpair
  obtain ⟨-, ⟨hlater, -⟩, hfront⟩ := hpair
  rw [List.filterMap_append, List.filter_append]
  have hbefore : (front.filterMap fun q => (q.reading config).token).filter
      (·.span.start < p.start) = front.filterMap fun q => (q.reading config).token := by
    rw [List.filter_eq_self]
    intro t ht
    obtain ⟨q, hq, htoken⟩ := List.mem_filterMap.mp ht
    rw [eq_of_token htoken, decide_eq_true_iff]
    exact (hfront q hq p List.mem_cons_self).1
  have hbehind : ((p :: later).filterMap fun q => (q.reading config).token).filter
      (·.span.start < p.start) = [] := by
    rw [List.filter_eq_nil_iff]
    intro t ht
    obtain ⟨q, hq, htoken⟩ := List.mem_filterMap.mp ht
    rw [eq_of_token htoken, decide_eq_true_iff, Nat.not_lt]
    rcases List.mem_cons.mp hq with rfl | hq
    · exact Nat.le_add_right _ _
    · have hlt := (hlater q hq).1
      show p.start ≤ q.start + _
      omega
  rw [hbefore, hbehind, List.append_nil]

/-- A run whose lexemes all make tokens ends behind all of the bytes. -/
theorem endOffset_of_isSome {config : Config} {placed : List Placed} (stop : Nat)
    (h : ∀ p ∈ placed, (p.reading config).token.isSome = true) :
    endOffset config stop placed = stop := by
  have hnone : placed.find? (fun p => (p.reading config).token.isNone) = none := by
    rw [List.find?_eq_none]
    intro p hp
    rw [Option.isNone_iff_eq_none, ← Option.not_isSome_iff_eq_none, h p hp]
    simp
  rw [endOffset, hnone]

/-- A run ends within the first lexeme without a token, as far behind its start as the lexer moved
for it. -/
theorem endOffset_append_cons {config : Config} {front later : List Placed} {p : Placed}
    (stop : Nat) (hfront : ∀ q ∈ front, (q.reading config).token.isSome = true)
    (hp : (p.reading config).token = none) :
    endOffset config stop (front ++ p :: later) = p.start + (p.reading config).advance := by
  induction front with
  | nil => exact endOffset_cons_of_none hp stop later
  | cons q front ih =>
      obtain ⟨t, ht⟩ := Option.isSome_iff_exists.mp (hfront q List.mem_cons_self)
      have hrest : ∀ r ∈ front, (r.reading config).token.isSome = true := by
        intro r hr
        exact hfront r (List.mem_cons_of_mem q hr)
      rw [List.cons_append, endOffset_cons_of_some ht, ih hrest]

/-- Where the first malformed number ends a run: behind its start and in front of its end. -/
theorem endOffset_suppress_bounds (quoteSpan : QuoteSpan) (stop : Nat) {front later : List Placed}
    {p : Placed} (hscan : scan comments offset bytes = front ++ p :: later)
    (hfront : ∀ q ∈ front, q.lexeme.isMalformed = false) (hp : p.lexeme.isMalformed = true) :
    p.start < endOffset ⟨comments, .suppress, quoteSpan⟩ stop (front ++ p :: later) ∧
    endOffset ⟨comments, .suppress, quoteSpan⟩ stop (front ++ p :: later) < p.stop := by
  have htokens : ∀ q ∈ front,
      (q.reading ⟨comments, .suppress, quoteSpan⟩).token.isSome = true := by
    intro q hq
    rw [Placed.reading, readAt_suppress (hfront q hq)]
    exact token_errorToken q.lexeme
  have hmem : p ∈ scan comments offset bytes := by
    rw [hscan]
    exact List.mem_append_right front List.mem_cons_self
  obtain ⟨-, rest, -, -, hends⟩ := exists_of_mem_scan hmem
  obtain ⟨hpos, hlt⟩ := advance_suppress_bounds quoteSpan p.start hends hp
  rw [endOffset_append_cons stop htokens (token_suppress hp)]
  exact ⟨Nat.lt_add_of_pos_right hpos, Nat.add_lt_add_left hlt p.start⟩

/-- In front of the first malformed number there is no problem: no block comment is open there,
since lexemes follow. So the number is the first problem of either run. -/
theorem filterMap_problem_before {config : Config} {front later : List Placed} {p : Placed}
    (hscan : scan config.comments offset bytes = front ++ p :: later)
    (hfront : ∀ q ∈ front, q.lexeme.isMalformed = false) :
    (front.map (Placed.reading config)).filterMap (·.problem) = [] := by
  have hclosed := pairwise_scan_closed config.comments offset bytes
  rw [hscan, List.pairwise_append] at hclosed
  rw [List.filterMap_map, List.filterMap_eq_nil_iff]
  intro q hq
  exact problem_eq_none (hfront q hq) (hclosed.2.2 q hq p List.mem_cons_self)

end Lexeme

/-! ### The two runs -/

section Runs

variable {source : Source} {comments : Bool} {quoteSpan : QuoteSpan}
  {tokens tokens' : List Token} {last last' : Lexer}

/-- Without a malformed number the two runs are alike, and they end where the source does. -/
theorem CutShort.of_clean
    (h : ∀ p ∈ Lexeme.scan comments 0 source.bytes, p.lexeme.isMalformed = false)
    (hdrain : (Lexer.start source ⟨comments, .errorToken, quoteSpan⟩).drain = .ok (tokens, last))
    (hdrain' : (Lexer.start source ⟨comments, .suppress, quoteSpan⟩).drain
      = .ok (tokens', last')) :
    CutShort tokens last tokens' last' := by
  obtain ⟨rfl, -, hproblems, hoffset⟩ := Lexer.eq_of_drain_start hdrain
  obtain ⟨rfl, hsource', hproblems', hoffset'⟩ := Lexer.eq_of_drain_start hdrain'
  rw [Lexeme.readings_suppress_of_clean h] at hproblems' ⊢
  -- Neither run stops before the end of the source.
  have hend : last.offset = source.size := by
    rw [hoffset]
    refine Lexeme.endOffset_of_isSome _ ?_
    intro p _
    exact Lexeme.token_errorToken p.lexeme
  have hend' : last'.offset = source.size := by
    rw [hoffset']
    refine Lexeme.endOffset_of_isSome _ ?_
    intro p hp
    rw [Placed.reading, Lexeme.readAt_suppress (h p hp)]
    exact Lexeme.token_errorToken p.lexeme
  refine .nowhere ?_ rfl ?_ (by rw [hend, hend']) ?_
  · intro problem hmem
    rw [hproblems, Lexeme.readings_errorToken, List.filterMap_map] at hmem
    obtain ⟨p, hp, hproblem⟩ := List.mem_filterMap.mp hmem
    rw [Lexeme.isMalformedNumber_of_problem hproblem]
    exact h p hp
  · rw [← Array.toList_inj, hproblems, hproblems']
  · rw [Lexer.isAtEnd_iff, hsource']
    exact Nat.le_of_eq hend'.symm

/-- The first malformed number cuts the run short. The lexemes in front of it are read alike, and
the run in which it makes a token goes on over the later ones. -/
theorem CutShort.of_malformed {front later : List Placed} {p : Placed}
    (hscan : Lexeme.scan comments 0 source.bytes = front ++ p :: later)
    (hfront : ∀ q ∈ front, q.lexeme.isMalformed = false) (hp : p.lexeme.isMalformed = true)
    (hdrain : (Lexer.start source ⟨comments, .errorToken, quoteSpan⟩).drain = .ok (tokens, last))
    (hdrain' : (Lexer.start source ⟨comments, .suppress, quoteSpan⟩).drain
      = .ok (tokens', last')) :
    CutShort tokens last tokens' last' := by
  obtain ⟨rfl, -, hproblems, -⟩ := Lexer.eq_of_drain_start hdrain
  obtain ⟨rfl, hsource', hproblems', hoffset'⟩ := Lexer.eq_of_drain_start hdrain'
  obtain ⟨literal, hfirst⟩ : ∃ literal, (p.reading ⟨comments, .errorToken, quoteSpan⟩).problem
      = some ⟨.malformedNumber literal, p.span⟩ := Lexeme.problem_readAt_of_isMalformed hp
  have hfirst' : (p.reading ⟨comments, .suppress, quoteSpan⟩).problem
      = some ⟨.malformedNumber literal, p.span⟩ := (Lexeme.problem_suppress p.lexeme).trans hfirst
  have hstop : (p.reading ⟨comments, .suppress, quoteSpan⟩).token = none :=
    Lexeme.token_suppress hp
  have hquiet : (front.map (Placed.reading ⟨comments, .errorToken, quoteSpan⟩)).filterMap
      (·.problem) = [] := Lexeme.filterMap_problem_before hscan hfront
  rw [Lexeme.readings_errorToken, hscan, List.map_append, List.map_cons, List.filterMap_append,
    hquiet, List.nil_append, List.filterMap_cons_some hfirst] at hproblems
  rw [Lexeme.readings_suppress hscan hfront hp, List.filterMap_append, hquiet, List.nil_append,
    List.filterMap_cons_some hfirst', List.filterMap_nil] at hproblems'
  obtain ⟨hstart, hlt⟩ := Lexeme.endOffset_suppress_bounds quoteSpan source.size hscan hfront hp
  rw [← hscan, ← hoffset'] at hstart hlt
  -- The number lies within the source, so that its end is not behind the end of the source.
  have hbound : p.stop ≤ source.size := by
    have hmem : p ∈ Lexeme.scan comments 0 source.bytes := by
      rw [hscan]
      exact List.mem_append_right front List.mem_cons_self
    rw [← source.length_bytes, ← Nat.zero_add source.bytes.length]
    exact (Lexeme.offset_le_of_mem_scan hmem).2.2
  refine .within ⟨.malformedNumber literal, p.span⟩ ?_ ?_ hproblems' ?_ hstart hlt
  · rw [hproblems]
    exact List.find?_cons_of_pos rfl
  · rw [Lexeme.readings_errorToken, hscan, List.filterMap_map,
      Lexeme.readings_suppress hscan hfront hp, List.filterMap_append,
      List.filterMap_cons_none hstop, List.filterMap_nil, List.append_nil, List.filterMap_map]
    exact (Lexeme.filter_tokens_before hscan).symm
  · rw [Bool.eq_false_iff, ne_eq, Lexer.isAtEnd_iff, hsource']
    omega

end Runs

/-- A run that a malformed number ends is the front of the run in which such a number makes a
token. It ends within the number, with the number as its one problem. If no number is malformed
then the two runs are the same, to the end of the source. -/
theorem drain_suppress (source : Source) (comments : Bool) (quoteSpan : QuoteSpan) :
    ∃ tokens last tokens' last',
      (Lexer.start source ⟨comments, .errorToken, quoteSpan⟩).drain = .ok (tokens, last) ∧
      (Lexer.start source ⟨comments, .suppress, quoteSpan⟩).drain = .ok (tokens', last') ∧
      CutShort tokens last tokens' last' := by
  obtain ⟨last, hdrain, -⟩ := Lexer.drain_start source ⟨comments, .errorToken, quoteSpan⟩
  obtain ⟨last', hdrain', -⟩ := Lexer.drain_start source ⟨comments, .suppress, quoteSpan⟩
  refine ⟨_, last, _, last', hdrain, hdrain', ?_⟩
  cases hfind : (Lexeme.scan comments 0 source.bytes).find? (·.lexeme.isMalformed) with
  | none =>
      refine CutShort.of_clean ?_ hdrain hdrain'
      intro p hp
      exact Bool.eq_false_iff.mpr (List.find?_eq_none.mp hfind p hp)
  | some p =>
      obtain ⟨hp, front, later, hscan, hfront⟩ := List.find?_eq_some_iff_append.mp hfind
      refine CutShort.of_malformed hscan ?_ hp hdrain hdrain'
      intro q hq
      exact Bool.not_eq_true' _ ▸ hfront q hq

end Lexis
