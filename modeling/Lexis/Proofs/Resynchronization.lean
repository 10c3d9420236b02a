import Lexis.Proofs.Scan
import Lexis.Proofs.Utf8

/-!
# `Lexis.Proofs.Resynchronization`: a line feed separates

What ends at the end of a source ends in front of a line feed as well, with the exception of
a block comment. A scan looks back at nothing, and an offset is only added to. So a source
can be cut at a line feed into two, and lexed in two runs. The theorems:

* `Lexeme.EndsBefore.append_lineFeed`: a line feed and whatever comes behind it can follow the
  rest behind a lexeme, unless the lexeme is a block comment that is open.
* `Lexeme.scan_append_lineFeed`: the scan of bytes that are cut at a line feed.
* `Lexeme.scan_add`, `Lexeme.readings_add`: a scan from a later offset is the same, shifted.
* `drains_append_lineFeed`: the tokens and problems of two sources that a line feed joins.
-/

set_option autoImplicit false

namespace Lexis

/-! ### In front of a line feed -/

/-- A line feed in front of bytes that do not begin with `b` is not `b` either. -/
theorem head?_append_lineFeed {b : UInt8} (hb : b ≠ Byte.lineFeed) {rest : List UInt8}
    (h : rest.head? ≠ some b) (tail : List UInt8) :
    (rest ++ Byte.lineFeed :: tail).head? ≠ some b := by
  cases rest with
  | nil => simpa using hb.symm
  | cons c rest => simpa using h

namespace Lexeme

/-- Whether the lexeme is a block comment without its closer. -/
def isOpen : Lexeme → Bool
  | blockComment _ _ openDepth => openDepth != 0
  | _ => false

/-- A byte other than a slash is not part of the mark of a doc comment, so that whether there is a
mark is settled in front of it. -/
theorem marksDocLine_append_cons {b : UInt8} (hb : b ≠ Byte.slash) (body tail : List UInt8) :
    marksDocLine (body ++ b :: tail) = marksDocLine body := by
  match body with
  | [] => simp [marksDocLine, hb]
  | [_] =>
      have hmark : (some b != some Byte.slash) = true := by simpa using hb
      simp [marksDocLine, hmark]
  | _ :: _ :: _ => rfl

/-- A line feed undoes no mark of a doc comment and makes none. It is neither the star of a mark
nor the star or slash that may not follow one. -/
theorem marksDocBlock_append_lineFeed (body tail : List UInt8) :
    marksDocBlock (body ++ Byte.lineFeed :: tail) = marksDocBlock body := by
  match body with
  | [] => rfl
  | [_] => rfl
  | _ :: _ :: _ => rfl

/-- Where a lexeme ends, it ends as well with a line feed behind the rest, and with more behind
that. Only a block comment that is open would go on (`hclosed`); a literal without its closing
quote and a line comment end at the line feed. -/
theorem EndsBefore.append_lineFeed {comments : Bool} {lexeme : Lexeme} {rest : List UInt8}
    (h : EndsBefore comments lexeme rest) (hclosed : lexeme.isOpen = false) (tail : List UInt8) :
    EndsBefore comments lexeme (rest ++ Byte.lineFeed :: tail) := by
  -- A line feed belongs to no run of bytes, so that each run ends where it did.
  cases h with
  | word hb hrun => exact .word hb (hrun.append_cons (by decide) tail)
  | number hb hrun => exact .number hb (hrun.append_cons (by decide) tail)
  | terminated hrun => exact .terminated (hrun.append_cons (by simp [staysQuoted]) tail)
  | @unterminated quote value _ hrun hopen =>
      have hquote : quote.byte ≠ Byte.lineFeed := by cases quote <;> decide
      exact .unterminated (hrun.append_cons (by simp [staysQuoted]) tail)
        (head?_append_lineFeed hquote hopen tail)
  | lineComment hcomments hdoc hrun =>
      refine .lineComment hcomments ?_ (hrun.append_cons (by decide) tail)
      rw [← List.append_assoc, marksDocLine_append_cons (by decide)]
      exact hdoc
  | closedComment hcomments hdoc hnest =>
      refine .closedComment hcomments ?_ hnest
      rw [← List.append_assoc, marksDocBlock_append_lineFeed]
      exact hdoc
  | openComment => cases hclosed
  | single halone =>
      refine .single { halone with comment := ?_ }
      intro hcomments hb
      obtain ⟨hslash, hstar⟩ := halone.comment hcomments hb
      exact ⟨head?_append_lineFeed (by decide) hslash tail,
        head?_append_lineFeed (by decide) hstar tail⟩

/-- The lexemes in front of a line feed are those that the front would have alone, and those
behind it are those of what stands there. The induction is along the lexemes of the front, none of
which may be an open comment (`hclosed`). -/
theorem scan_append_lineFeed {comments : Bool} {offset : Nat} {front : List UInt8}
    (hclosed : ∀ p ∈ scan comments offset front, p.lexeme.isOpen = false) (tail : List UInt8) :
    scan comments offset (front ++ Byte.lineFeed :: tail)
      = scan comments offset front ++ scan comments (offset + (front.length + 1)) tail := by
  induction offset, front using scan_induction comments with
  | nil offset =>
      rw [scan_nil, List.nil_append, List.nil_append, scan_cons_of_isBlank (by decide)]
      rfl
  | blank offset b rest hb ih =>
      -- A blank in front is skipped in both scans.
      rw [scan_cons_of_isBlank hb] at hclosed
      rw [List.cons_append, scan_cons_of_isBlank hb, scan_cons_of_isBlank hb, ih hclosed,
        List.length_cons, show offset + 1 + (rest.length + 1) = offset + (rest.length + 1 + 1)
          by omega]
  | lexeme offset lexeme rest hends ih =>
      rw [scan_spelling_append hends] at hclosed
      -- The first lexeme is the same in both scans, since what follows it ends it in both.
      have hfirst : lexeme.isOpen = false := hclosed ⟨offset, lexeme⟩ List.mem_cons_self
      have hlater : ∀ p ∈ scan comments (offset + lexeme.width) rest, p.lexeme.isOpen = false := by
        intro p hp
        exact hclosed p (List.mem_cons_of_mem _ hp)
      rw [List.append_assoc, scan_spelling_append (hends.append_lineFeed hfirst tail),
        scan_spelling_append hends, ih hlater, List.cons_append, List.length_append, width,
        show offset + lexeme.spelling.length + (rest.length + 1)
          = offset + (lexeme.spelling.length + rest.length + 1) by omega]

end Lexeme

/-! ### From a later offset -/

/-- The lexeme as many bytes further on. -/
def Placed.shift (p : Placed) (bytes : Nat) : Placed := { p with start := p.start + bytes }

/-- The reading of a lexeme that stands as many bytes further on. -/
def Reading.shift (reading : Reading) (bytes : Nat) : Reading where
  token := reading.token.map fun t => t.shift bytes
  problem := reading.problem.map fun problem => problem.shift bytes
  advance := reading.advance

namespace Lexeme

variable {config : Config}

/-- What a lexeme comes to depends on its offset only in where that is: its token and its problem
are as many bytes further on, and the lexer moves as far. -/
theorem readAt_add (lexeme : Lexeme) (offset bytes : Nat) :
    lexeme.readAt config (offset + bytes) = (lexeme.readAt config offset).shift bytes := by
  have hspan : (⟨offset + bytes + (lexeme.covered config).1, (lexeme.covered config).2⟩ : Span)
      = Span.shift ⟨offset + (lexeme.covered config).1, (lexeme.covered config).2⟩ bytes := by
    rw [Span.shift, Nat.add_right_comm]
  unfold readAt
  rw [hspan]
  cases lexeme with
  | number run =>
      rw [reading, reading]
      cases hkind : numberKind? run with
      | some kind => rfl
      | none =>
          cases config.malformedNumber with
          | suppress => rfl
          | errorToken => rfl
  | blockComment isDoc content openDepth =>
      rw [reading, reading]
      dsimp only
      split
      · rfl
      · rfl
  | _ => rfl

/-- A scan from a later offset finds the same lexemes as many bytes further on. -/
theorem scan_add (comments : Bool) (offset bytes : Nat) (input : List UInt8) :
    scan comments (offset + bytes) input
      = (scan comments offset input).map fun p => p.shift bytes := by
  induction offset, input using scan_induction comments with
  | nil offset =>
      rw [scan_nil, scan_nil]
      rfl
  | blank offset b rest hb ih =>
      rw [scan_cons_of_isBlank hb, scan_cons_of_isBlank hb, ← ih,
        show offset + bytes + 1 = offset + 1 + bytes by omega]
  | lexeme offset lexeme rest hends ih =>
      rw [scan_spelling_append hends, scan_spelling_append hends, List.map_cons, ← ih,
        show offset + bytes + lexeme.width = offset + lexeme.width + bytes by omega]
      rfl

end Lexeme

/-- Shifting does not change where a run stops, since it makes and takes away no token. -/
theorem Reading.untilStop_map_shift (readings : List Reading) (bytes : Nat) :
    untilStop (readings.map fun reading => reading.shift bytes)
      = (untilStop readings).map fun reading => reading.shift bytes := by
  induction readings with
  | nil => rfl
  | cons reading later ih =>
      cases htoken : reading.token with
      | none =>
          have hshift : (reading.shift bytes).token = none := by simp [shift, htoken]
          rw [List.map_cons, untilStop_cons_of_none hshift, untilStop_cons_of_none htoken]
          rfl
      | some t =>
          have hshift : (reading.shift bytes).token = some (t.shift bytes) := by
            simp [shift, htoken]
          rw [List.map_cons, untilStop_cons_of_some hshift, untilStop_cons_of_some htoken, ih]
          rfl

/-- What is read from a later offset is the same, shifted. With this a second source can be lexed
on its own and then moved to where it stands. -/
theorem Lexeme.readings_add (config : Config) (offset bytes : Nat) (input : List UInt8) :
    readings config (offset + bytes) input
      = (readings config offset input).map fun reading => reading.shift bytes := by
  have hread (p : Placed) : (p.shift bytes).reading config = (p.reading config).shift bytes :=
    p.lexeme.readAt_add p.start bytes
  rw [readings, readings, scan_add, ← Reading.untilStop_map_shift, List.map_map, List.map_map]
  congr 2
  funext p
  exact hread p

/-! ### The runs -/

/-- A reading without a token is in the run, if there is one at all. It is the first of them, and
the run stops with it. -/
theorem Reading.exists_mem_untilStop {reading : Reading} {readings : List Reading}
    (h : reading ∈ readings) (htoken : reading.token = none) :
    ∃ stop ∈ untilStop readings, stop.token = none := by
  induction readings with
  | nil => cases h
  | cons first later ih =>
      cases hfirst : first.token with
      | none =>
          rw [untilStop_cons_of_none hfirst]
          exact ⟨first, List.mem_singleton.mpr rfl, hfirst⟩
      | some t =>
          rw [untilStop_cons_of_some hfirst]
          rcases List.mem_cons.mp h with rfl | h
          · rw [hfirst] at htoken
            cases htoken
          · obtain ⟨stop, hmem, hstop⟩ := ih h
            exact ⟨stop, List.mem_cons_of_mem _ hmem, hstop⟩

namespace Lexeme

variable {config : Config} {offset : Nat}

/-- Only a malformed number makes no token, and only where none is asked for. It is recorded as a
problem then. -/
theorem malformed_of_token_eq_none {lexeme : Lexeme}
    (h : (lexeme.readAt config offset).token = none) :
    config.malformedNumber = .suppress ∧ ∃ literal span,
      (lexeme.readAt config offset).problem = some ⟨.malformedNumber literal, span⟩ := by
  unfold readAt at h ⊢
  cases lexeme with
  | number run =>
      rw [reading] at h ⊢
      cases hkind : numberKind? run with
      | some kind => simp [hkind] at h
      | none =>
          cases hmode : config.malformedNumber with
          | suppress => exact ⟨rfl, _, _, rfl⟩
          | errorToken => simp [hkind, hmode] at h
  | blockComment isDoc content openDepth =>
      rw [reading] at h
      dsimp only at h
      split at h
      · cases h
      · cases h
  | _ => cases h

/-- An open block comment is a problem. -/
theorem unterminated_of_isOpen {lexeme : Lexeme} (h : lexeme.isOpen = true) :
    ∃ depth span,
      (lexeme.readAt config offset).problem = some ⟨.unterminatedComment depth, span⟩ := by
  cases lexeme with
  | blockComment isDoc content openDepth =>
      have hdepth : openDepth ≠ 0 := by simpa [isOpen] using h
      unfold readAt
      rw [reading]
      dsimp only
      rw [if_neg hdepth]
      exact ⟨_, _, rfl⟩
  | _ => cases h

end Lexeme

/-- No block comment is open at the end of a run with these problems, and no malformed number
ended it. A malformed number that makes a token ends nothing. -/
structure Completes (config : Config) (problems : List Problem) : Prop where
  closed : ∀ problem ∈ problems, ∀ depth, problem.cause ≠ .unterminatedComment depth
  numbers : config.malformedNumber = .errorToken ∨
    ∀ problem ∈ problems, ∀ literal, problem.cause ≠ .malformedNumber literal

/-- A run without such problems makes a token of each lexeme, and each lexeme ends. What would
stop the run or stay open is recorded, so that looking at the problems is enough. -/
theorem Completes.of_readings {config : Config} {offset : Nat} {bytes : List UInt8}
    (h : Completes config ((Lexeme.readings config offset bytes).filterMap (·.problem))) :
    ∀ p ∈ Lexeme.scan config.comments offset bytes,
      (p.reading config).token.isSome = true ∧ p.lexeme.isOpen = false := by
  have htokens : ∀ p ∈ Lexeme.scan config.comments offset bytes,
      (p.reading config).token.isSome = true := by
    intro p hp
    cases htoken : (p.reading config).token with
    | some t => rfl
    | none =>
        -- The run stopped here or before, and what stops a run is recorded.
        obtain ⟨stop, hstop, hnone⟩ :=
          Reading.exists_mem_untilStop (List.mem_map_of_mem hp) htoken
        obtain ⟨q, -, rfl⟩ := Lexeme.mem_readings hstop
        obtain ⟨hmode, literal, span, hproblem⟩ := Lexeme.malformed_of_token_eq_none hnone
        rcases h.numbers with herror | hnumbers
        · rw [hmode] at herror
          cases herror
        · exact absurd rfl (hnumbers _ (List.mem_filterMap.mpr ⟨_, hstop, hproblem⟩) literal)
  intro p hp
  refine ⟨htokens p hp, ?_⟩
  cases hopen : p.lexeme.isOpen with
  | false => rfl
  | true =>
      obtain ⟨depth, span, hproblem⟩ := Lexeme.unterminated_of_isOpen hopen
      have hread : p.reading config ∈ Lexeme.readings config offset bytes := by
        rw [Lexeme.readings_eq_map htokens]
        exact List.mem_map_of_mem hp
      exact absurd rfl (h.closed _ (List.mem_filterMap.mpr ⟨_, hread, hproblem⟩) depth)

/-- What is read of bytes that are cut at a line feed: what is read of the front, all of it, and
then what is read behind the line feed. -/
theorem Lexeme.readings_append_lineFeed {config : Config} {offset : Nat} {front : List UInt8}
    (h : Completes config ((readings config offset front).filterMap (·.problem)))
    (tail : List UInt8) :
    readings config offset (front ++ Byte.lineFeed :: tail)
      = readings config offset front ++ readings config (offset + (front.length + 1)) tail := by
  have htokens : ∀ p ∈ scan config.comments offset front,
      (p.reading config).token.isSome = true := by
    intro p hp
    exact (h.of_readings p hp).1
  have hclosed : ∀ p ∈ scan config.comments offset front, p.lexeme.isOpen = false := by
    intro p hp
    exact (h.of_readings p hp).2
  rw [readings_eq_map htokens, readings, scan_append_lineFeed hclosed, List.map_append,
    Reading.untilStop_append (List.forall_mem_map.mpr htokens)]
  rfl

/-- If the first of two sources completes, then a line feed between them separates: the tokens and
problems of the whole are those of the first, and behind them those of the second as many bytes
further on as it stands. The second source may be any, and may end with an open comment or stop
early. -/
theorem drains_append_lineFeed (config : Config) {first second whole : Source}
    (htext : whole.text = first.text ++ "\n" ++ second.text) :
    ∃ tokens problems tokens' problems', Lexer.Drains first config tokens problems ∧
      Lexer.Drains second config tokens' problems' ∧
      (Completes config problems → Lexer.Drains whole config
        (tokens ++ tokens'.map fun t => t.shift (first.size + 1))
        (problems ++ problems'.map fun problem => problem.shift (first.size + 1))) := by
  refine ⟨_, _, _, _, Lexer.drains_readings first config, Lexer.drains_readings second config, ?_⟩
  intro hcompletes
  -- The bytes of the whole are cut at the line feed, and the readings with them.
  have hbytes : whole.bytes = first.bytes ++ Byte.lineFeed :: second.bytes := by
    rw [whole.bytes_eq, htext, Text.bytes_append, Text.bytes_append, ← first.bytes_eq,
      ← second.bytes_eq, List.append_assoc]
    rfl
  have hreadings := Lexeme.readings_append_lineFeed hcompletes second.bytes
  rw [← hbytes, Lexeme.readings_add, first.length_bytes] at hreadings
  have hwhole := Lexer.drains_readings whole config
  rw [hreadings, List.filterMap_append, List.filterMap_append, List.filterMap_map,
    List.filterMap_map] at hwhole
  rw [List.map_filterMap, List.map_filterMap]
  exact hwhole

/-- A quoted literal that a line feed breaks off, and a number behind it. -/
theorem drains_broken_literal :
    Lexer.Drains ⟨"'a\n1", _, rfl, by decide⟩ {}
      [⟨.literal (.quoted .char "a" false), ⟨1, 1⟩⟩, ⟨.literal (.number .int "1" .decimal), ⟨3, 1⟩⟩]
      [] := by
  let first : Source := ⟨"'a", _, rfl, by decide⟩
  let second : Source := ⟨"1", _, rfl, by decide⟩
  let whole : Source := ⟨"'a\n1", _, rfl, by decide⟩
  have htext : whole.text = first.text ++ "\n" ++ second.text := by decide
  have hfirst : Lexer.Drains first {} [⟨.literal (.quoted .char "a" false), ⟨1, 1⟩⟩] [] :=
    ⟨_, (Lexer.drain_of_some rfl).trans (congrArg _ (Lexer.drain_of_none rfl)), rfl⟩
  have hsecond : Lexer.Drains second {} [⟨.literal (.number .int "1" .decimal), ⟨0, 1⟩⟩] [] :=
    ⟨_, (Lexer.drain_of_some rfl).trans (congrArg _ (Lexer.drain_of_none rfl)), rfl⟩
  obtain ⟨tokens, problems, tokens', problems', hdrains, hdrains', hwhole⟩ :=
    drains_append_lineFeed {} htext
  obtain ⟨rfl, rfl⟩ := hfirst.unique hdrains
  obtain ⟨rfl, rfl⟩ := hsecond.unique hdrains'
  exact hwhole ⟨by simp, .inr (by simp)⟩

end Lexis
