import Lexis.Proofs.LineEndings
import Lexis.Proofs.TokenPositions

/-!
# `Lexis.Proofs.LineEndingStyle`: how lines end does not matter

Take a source without carriage returns and put one in front of each line feed. Offsets change,
but lines and columns do not, and neither does what tokens and problems say. Where carriage
returns are part of a text they come back in it: within a block comment, and at the end of a
quoted literal that the end of its line breaks off. The theorems:

* `LineTable.starts_of_turned`: lines start where they did, as offsets go.
* `Source.Turned.samePosition`: a span and what it becomes have one line and one column.
* `Lexeme.payload_withReturns`: what the token of a lexeme says.
* `drains_withReturns`: the tokens and the problems of the two sources, one by one.
-/

set_option autoImplicit false

namespace Lexis

open Byte (lineFeed carriageReturn returnBefore turnedOffset)
open Text (Encoded)

/-- The second source has a carriage return in front of each line feed, and the first has none. -/
structure Source.Turned (source returned : Source) : Prop where
  bytes_eq : returned.bytes = Byte.withReturns source.bytes
  clean : carriageReturn ∉ source.bytes

/-! ### Lines and columns -/

/-- An offset stays at its distance to the one in front, unless there is a line feed between. The
carriage returns that are put in front of line feeds are the only new bytes. -/
theorem Byte.turnedOffset_add {bytes : List UInt8} {offset distance : Nat}
    (h : lineFeed ∉ (bytes.drop offset).take distance) :
    turnedOffset bytes (offset + distance) = turnedOffset bytes offset + distance := by
  rw [turnedOffset, turnedOffset, List.take_add, List.count_append, List.count_eq_zero.mpr h]
  omega

namespace LineTable

variable {source returned : Source}

/-- Lines start in turned bytes where they did, as offsets go. Without a carriage return among the
bytes (`h`) each line ends with a line feed, and so it does when one has been put in. -/
theorem lineStartsFrom_withReturns {rest : List UInt8} (h : carriageReturn ∉ rest)
    (front : List UInt8) :
    lineStartsFrom [] (Byte.withReturns front).length (Byte.withReturns rest)
      = (lineStartsFrom [] front.length rest).map (turnedOffset (front ++ rest)) := by
  induction rest generalizing front with
  | nil => rfl
  | cons b rest ih =>
      rw [List.mem_cons, not_or] at h
      have hbehind := ih h.2 (front ++ [b])
      have hlength : (front ++ [b]).length = front.length + 1 := List.length_append
      have hoffset := Byte.turnedOffset_length (front ++ [b]) rest
      rw [← List.append_cons, hlength] at hbehind hoffset
      rw [Byte.withReturns_append, List.length_append] at hbehind hoffset
      by_cases hfeed : b = lineFeed
      · -- The carriage return leaves it to the line feed, and the line ends one byte later.
        subst hfeed
        rw [Byte.withReturns_lineFeed, lineStartsFrom_of_not_endsLine rfl,
          lineStartsFrom_of_endsLine rfl, lineStartsFrom_of_endsLine rfl, List.map_cons, hoffset]
        exact congrArg _ hbehind
      · have hends (behind : List UInt8) : endsLine b behind = false := by
          simp [endsLine, hfeed, Ne.symm h.1]
        rw [Byte.withReturns_cons hfeed, lineStartsFrom_of_not_endsLine (hends _),
          lineStartsFrom_of_not_endsLine (hends _), ← hbehind, Byte.withReturns_cons hfeed]
        rfl

/-- Lines start where they did, as offsets go: the carriage return and the line feed behind it end
one line together. -/
theorem starts_of_turned (h : source.Turned returned) :
    (ofSource returned).starts = (ofSource source).starts.map (turnedOffset source.bytes) := by
  have hlines := lineStartsFrom_withReturns h.clean []
  rw [← h.bytes_eq] at hlines
  exact congrArg (0 :: ·) hlines

/-- An offset stays on its line, as the offsets of all line starts move along with it and stay in
order. -/
theorem index_of_turned (h : source.Turned returned) (offset : Nat) :
    (ofSource returned).index (turnedOffset source.bytes offset)
      = (ofSource source).index offset := by
  rw [index, index, starts_of_turned h, List.findIdx_map]
  simp only [Function.comp_def, Byte.turnedOffset_lt_iff]

/-- The start of a line becomes the start of the line of the same number. A number that no line
has starts nowhere, before and after. -/
theorem startAt_of_turned (h : source.Turned returned) (index : Nat) :
    (ofSource returned).startAt index
      = turnedOffset source.bytes ((ofSource source).startAt index) := by
  rw [startAt, startAt, starts_of_turned h, List.getElem?_map]
  cases (ofSource source).starts[index]? with
  | none => rfl
  | some start => rfl

/-- No line feed stands between the start of a line and an offset on it. So no new byte does
either, and columns stay. -/
theorem lineFeed_not_mem_line (source : Source) (offset : Nat) :
    lineFeed ∉ (source.bytes.drop ((ofSource source).startAt ((ofSource source).index offset))).take
      (offset - (ofSource source).startAt ((ofSource source).index offset)) := by
  intro hmem
  obtain ⟨i, hi⟩ := List.mem_iff_getElem?.mp hmem
  obtain ⟨hlt, hget⟩ : i < offset - (ofSource source).startAt ((ofSource source).index offset) ∧
      source.bytes[(ofSource source).startAt ((ofSource source).index offset) + i]?
        = some lineFeed := by
    simpa [List.getElem?_take] using hi
  generalize hstart : (ofSource source).startAt ((ofSource source).index offset) = start at hget hlt
  -- Otherwise a line would start behind the line feed, at or before the offset.
  have hmem : start + i + 1 ∈ (ofSource source).starts := by
    rw [mem_starts_ofSource_iff]
    obtain ⟨hbound, hfeed⟩ := List.getElem?_eq_some_iff.mp hget
    refine .inr ⟨source.bytes.take (start + i), lineFeed, source.bytes.drop (start + i + 1), ?_,
      rfl, ?_⟩
    · rw [← hfeed, ← List.drop_eq_getElem_cons hbound, List.take_append_drop]
    · rw [List.length_take, Nat.min_eq_left (Nat.le_of_lt hbound)]
  have hle := le_startAt_index source hmem (show start + i + 1 ≤ offset by omega)
  omega

end LineTable

/-- Both spans resolve, each in a session of its own source, to one line and one column. -/
def Span.SamePosition (source returned : Source) (span span' : Span) : Prop :=
  ∃ location location', (Session.ofSource source).resolve span = .ok (.ok location) ∧
    (Session.ofSource returned).resolve span' = .ok (.ok location') ∧
    location'.line = location.line ∧ location'.column = location.column

/-- A span that starts where it comes to has the line and the column that it had. Where it ends
does not matter, as long as it lies within its source. -/
theorem Source.Turned.samePosition {source returned : Source} (h : source.Turned returned)
    {span span' : Span} (hstart : span'.start = turnedOffset source.bytes span.start)
    (hle : span.stop ≤ source.size) (hle' : span'.stop ≤ returned.size) :
    span.SamePosition source returned span' := by
  refine ⟨_, _, (Span.fullyResolves_location hle).resolve_eq,
    (Span.fullyResolves_location hle').resolve_eq, ?_, ?_⟩
  · show (LineTable.ofSource returned).index span'.start + 1 = _
    rw [hstart, LineTable.index_of_turned h]
    rfl
  · obtain ⟨start, -, hline, hfirst, -⟩ := LineTable.exists_start source span.start
    have hdistance := Byte.turnedOffset_add (LineTable.lineFeed_not_mem_line source span.start)
    show span'.start - (LineTable.ofSource returned).startAt _ + 1
      = span.start - (LineTable.ofSource source).startAt _ + 1
    rw [hstart, LineTable.index_of_turned h, LineTable.startAt_of_turned h]
    rw [hline] at hdistance ⊢
    rw [Nat.add_sub_cancel' hfirst] at hdistance
    omega

/-! ### What tokens say -/

/-- What a payload becomes. A quoted literal takes a carriage return in where the end of its line
breaks it off, and a block comment at the end of each of its lines. -/
def Payload.withReturns (brokenOff : Bool) : Payload → Payload
  | .literal (.quoted quote value false) =>
    .literal (.quoted quote (if brokenOff then value ++ "\r" else value) false)
  | .comment ⟨.block, isDoc, content⟩ => .comment ⟨.block, isDoc, Text.withReturns content⟩
  | payload => payload

/-- Carriage returns do not change the kind of a payload. -/
theorem Payload.kind_withReturns (brokenOff : Bool) (payload : Payload) :
    (payload.withReturns brokenOff).kind = payload.kind := by
  unfold withReturns
  split <;> rfl

namespace Lexeme

variable {config : Config} {comments : Bool} {offset : Nat} {lexeme : Lexeme} {rest : List UInt8}

/-- What a word says stays, as it is neither a literal that may break off nor a comment. -/
theorem withReturns_wordPayload (brokenOff : Bool) (letters : List UInt8) :
    (wordPayload letters).withReturns brokenOff = wordPayload letters := by
  rw [wordPayload]
  cases Keyword.ofSpelling? (Text.decode letters) <;> rfl

/-- What a single byte says stays, be it a symbol or unknown. -/
theorem withReturns_singlePayload (brokenOff : Bool) (b : UInt8) :
    (singlePayload b).withReturns brokenOff = singlePayload b := by
  rw [singlePayload]
  cases Symbol.ofByte? b <;> rfl

/-- The carriage return that a line comment takes in is not part of its content, as it is left out
at the end. There was none before (`h`), so that no more is left out. -/
theorem withoutReturn_append_returnBefore {content : List UInt8} (h : carriageReturn ∉ content)
    (rest : List UInt8) : withoutReturn (content ++ returnBefore rest) = withoutReturn content := by
  have hcontent : withoutReturn content = content := by
    rw [withoutReturn, if_neg]
    intro hlast
    exact h (List.mem_of_getLast? (beq_iff_eq.mp hlast))
  rw [returnBefore]
  split
  · rw [hcontent, withoutReturn, if_pos (by simp), List.dropLast_concat]
  · rw [List.append_nil]

/-- A literal that is broken off takes the carriage return in, as its value goes up to the line
feed. One that ends with the source takes none in. -/
theorem decode_append_returnBefore {value : List UInt8} (h : Encoded value)
    (rest : List UInt8) :
    Text.decode (value ++ returnBefore rest)
      = if rest.head? == some lineFeed then Text.decode value ++ "\r" else Text.decode value := by
  obtain ⟨text, rfl⟩ := h
  rw [returnBefore, Text.decode_bytes]
  split
  · next hhead =>
      have hreturn : [carriageReturn] = Text.bytes "\r" := by decide
      rw [hreturn, ← Text.bytes_append, Text.decode_bytes, if_pos (beq_iff_eq.mpr hhead)]
  · next hhead =>
      rw [List.append_nil, Text.decode_bytes, if_neg (fun hbeq => hhead (beq_iff_eq.mp hbeq))]

/-- What the token of a lexeme says is what it said, turned. Only three kinds of lexeme hold bytes
that change: a literal that is broken off and a line comment take in the carriage return of the
break behind them, and a block comment those of the breaks within it. -/
theorem payload_withReturns {brokenOff : Bool} (hencoded : Encoded lexeme.spelling)
    (hclean : carriageReturn ∉ lexeme.spelling)
    (hbroken : ∀ quote value, lexeme = .quoted quote value false →
      brokenOff = (rest.head? == some lineFeed)) :
    (lexeme.withReturns rest).payload = lexeme.payload.withReturns brokenOff := by
  cases lexeme with
  | word letters => exact (withReturns_wordPayload brokenOff letters).symm
  | number run =>
      show (Lexeme.number run).payload = (Lexeme.number run).payload.withReturns brokenOff
      rw [payload]
      cases numberKind? run <;> rfl
  | quoted quote value isTerminated =>
      cases isTerminated with
      | true => rfl
      | false =>
          have hvalue := decode_append_returnBefore (encoded_value hencoded) rest
          rw [hbroken quote value rfl]
          exact congrArg (fun text => Payload.literal (.quoted quote text false)) hvalue
  | lineComment isDoc content =>
      have hcontent : carriageReturn ∉ content := by
        rw [spelling_lineComment] at hclean
        simp_all
      have hsame := withoutReturn_append_returnBefore hcontent rest
      exact congrArg (fun bytes => Payload.comment ⟨.line, isDoc, Text.decode bytes⟩) hsame
  | blockComment isDoc content openDepth =>
      have hcontent := Text.decode_withReturns (encoded_blockContent hencoded)
      exact congrArg (fun text => Payload.comment ⟨.block, isDoc, text⟩) hcontent
  | single b => exact (withReturns_singlePayload brokenOff b).symm

/-! ### What a lexeme comes to -/

/-- The cause of the problem that a lexeme has. -/
def cause? : Lexeme → Option Cause
  | .number run =>
    if (numberKind? run).isSome then none else some (.malformedNumber (Text.decode run))
  | .blockComment _ _ openDepth =>
    if openDepth = 0 then none else some (.unterminatedComment openDepth)
  | _ => none

/-- The problem of a lexeme is its cause, at the whole of the lexeme. The configuration plays no
part. -/
theorem problem_readAt (config : Config) (offset : Nat) (lexeme : Lexeme) :
    (lexeme.readAt config offset).problem
      = lexeme.cause?.map fun cause => ⟨cause, ⟨offset, lexeme.width⟩⟩ := by
  cases lexeme with
  | number run =>
      rw [readAt, reading, cause?]
      cases numberKind? run with
      | some kind => rfl
      | none => cases config.malformedNumber <;> rfl
  | blockComment isDoc content openDepth =>
      cases openDepth with
      | zero => rfl
      | succ depth => rfl
  | _ => rfl

/-- A lexeme comes to a token unless it is a malformed number that is suppressed. Neither of the
two conditions changes with the line endings, so that both runs stop at the same lexeme. -/
theorem isSome_token_readAt (config : Config) (offset : Nat) (lexeme : Lexeme) :
    (lexeme.readAt config offset).token.isSome
      = !(lexeme.isMalformed && config.malformedNumber == .suppress) := by
  cases lexeme with
  | number run =>
      rw [readAt, reading, isMalformed]
      cases numberKind? run with
      | some kind => rfl
      | none => cases config.malformedNumber <;> rfl
  | blockComment isDoc content openDepth =>
      cases openDepth with
      | zero => rfl
      | succ depth => rfl
  | _ => rfl

/-- Carriage returns do not change the cause of a problem: a number has none, and an open comment
is open as often as before. -/
theorem cause?_withReturns (rest : List UInt8) (lexeme : Lexeme) :
    (lexeme.withReturns rest).cause? = lexeme.cause? := by
  unfold withReturns
  split <;> rfl

/-- Carriage returns do not make a number malformed. -/
theorem isMalformed_withReturns (rest : List UInt8) (lexeme : Lexeme) :
    (lexeme.withReturns rest).isMalformed = lexeme.isMalformed := by
  unfold withReturns
  split <;> rfl

/-- A token leaves out as many bytes in front as it did: the opening quote of a literal or
nothing. -/
theorem covered_withReturns (config : Config) (rest : List UInt8) (lexeme : Lexeme) :
    ((lexeme.withReturns rest).covered config).1 = (lexeme.covered config).1 := by
  cases lexeme with
  | quoted quote value isTerminated =>
      cases isTerminated with
      | true => rfl
      | false =>
          simp only [withReturns, covered]
          cases config.quoteSpan <;> rfl
  | _ => rfl

/-- Only quotes are left out in front of what a token covers, and these end no line. So the start
of the token moves as the start of the lexeme does. -/
theorem turnedOffset_covered {bytes : List UInt8} {p : Placed}
    (hp : p ∈ scan config.comments 0 bytes) :
    turnedOffset bytes (p.start + (p.lexeme.covered config).1)
      = turnedOffset bytes p.start + (p.lexeme.covered config).1 := by
  obtain ⟨front, rest, rfl, hstart, -⟩ := exists_of_mem_scan hp
  refine Byte.turnedOffset_add ?_
  rw [hstart, Nat.zero_add, List.drop_left]
  cases hlexeme : p.lexeme with
  | quoted quote value isTerminated =>
      intro hmem
      have hfirst := List.mem_of_mem_take hmem
      rw [covered] at hmem
      cases hquotes : config.quoteSpan with
      | content =>
          rw [hquotes] at hmem
          cases quote <;> cases List.mem_singleton.mp hmem
      | delimited =>
          rw [hquotes] at hmem
          cases hmem
  | _ => exact List.not_mem_nil

end Lexeme

/-! ### Tokens and problems -/

/-- The second token is what the first one becomes. -/
structure Token.Turned (source returned : Source) (t t' : Token) : Prop where
  payload_eq : t'.payload = t.payload.withReturns (source.bytes[t.span.stop]? == some lineFeed)
  kind_eq : t'.kind = t.kind
  position : t.span.SamePosition source returned t'.span

/-- The second problem is what the first one becomes. -/
structure Problem.Turned (source returned : Source) (problem problem' : Problem) : Prop where
  cause_eq : problem'.cause = problem.cause
  position : problem.span.SamePosition source returned problem'.span

/-- The second reading has what the token and the problem of the first one become. -/
structure Reading.Turned (source returned : Source) (reading reading' : Reading) : Prop where
  token : Option.Rel (Token.Turned source returned) reading.token reading'.token
  problem : Option.Rel (Problem.Turned source returned) reading.problem reading'.problem

/-- Options are related if both are empty, or else their values are. -/
theorem rel_of_isSome_eq {α β : Type} {r : α → β → Prop} {a : Option α} {b : Option β}
    (h : a.isSome = b.isSome) (hr : ∀ x y, a = some x → b = some y → r x y) :
    Option.Rel r a b := by
  cases a with
  | none =>
      cases b with
      | none => exact .none
      | some y => cases h
  | some x =>
      cases b with
      | none => cases h
      | some y => exact .some (hr x y rfl rfl)

/-- Of two options that are related either both have a value or neither has. -/
theorem isSome_eq_of_rel {α β : Type} {r : α → β → Prop} {a : Option α} {b : Option β}
    (h : Option.Rel r a b) : a.isSome = b.isSome := by
  cases h with
  | some _ => rfl
  | none => rfl

/-- Runs over readings of which the same have tokens stop at one place, so that what relates all
readings relates those of the runs. -/
theorem Reading.forall₂_untilStop {R : Reading → Reading → Prop}
    (hR : ∀ reading reading', R reading reading' →
      reading.token.isSome = reading'.token.isSome)
    {readings readings' : List Reading} (h : List.Forall₂ R readings readings') :
    List.Forall₂ R (untilStop readings) (untilStop readings') := by
  induction h with
  | nil => exact .nil
  | @cons reading reading' readings readings' hfirst _ ih =>
      have hsame := hR reading reading' hfirst
      cases htoken : reading.token with
      | none =>
          have htoken' : reading'.token = none := by
            rwa [htoken, Eq.comm, Option.isSome_none, Option.isSome_eq_false_iff,
              Option.isNone_iff_eq_none] at hsame
          rw [untilStop_cons_of_none htoken, untilStop_cons_of_none htoken']
          exact .cons hfirst .nil
      | some t =>
          obtain ⟨t', htoken'⟩ : ∃ t', reading'.token = some t' := by
            rwa [htoken, Eq.comm, Option.isSome_some, Option.isSome_iff_exists] at hsame
          rw [untilStop_cons_of_some htoken, untilStop_cons_of_some htoken']
          exact .cons hfirst ih

namespace Source.Turned

variable {source returned : Source} {config : Config} {p : Placed}

/-- The lexemes of the second source are what those of the first one become: each at its new
offset, with carriage returns put in where it holds a line feed or ends before one. -/
theorem scan_eq (h : source.Turned returned) (comments : Bool) :
    Lexeme.scan comments 0 returned.bytes
      = (Lexeme.scan comments 0 source.bytes).map (Placed.withReturns source.bytes) := by
  rw [h.bytes_eq]
  exact Lexeme.scan_withReturns comments [] source.bytes

/-- The lexeme that one becomes is a lexeme of the second source, at the offset that its own comes
to. -/
theorem mem_scan (h : source.Turned returned)
    (hp : p ∈ Lexeme.scan config.comments 0 source.bytes) :
    p.withReturns source.bytes ∈ Lexeme.scan config.comments 0 returned.bytes := by
  rw [h.scan_eq]
  exact List.mem_map_of_mem hp

/-- A literal without its closing quote is covered up to its end, where the line feed is. So the
carriage return in front of that belongs to its span. -/
theorem stop_of_unterminated {quote : Quote} {value : List UInt8}
    (hlexeme : p.lexeme = .quoted quote value false) :
    p.start + (p.lexeme.covered config).1 + (p.lexeme.covered config).2 = p.stop := by
  rw [Placed.stop, hlexeme, Lexeme.covered]
  cases config.quoteSpan with
  | content =>
      rw [Lexeme.width, Lexeme.spelling_unterminated, List.length_cons]
      dsimp only
      omega
  | delimited => rfl

/-- What the token says becomes what it says in the second source. A byte outside of ASCII stands
alone and stays; any other lexeme is encoded, and `Lexeme.payload_withReturns` applies. -/
theorem payload_eq (h : source.Turned returned) {t : Token}
    (hp : p ∈ Lexeme.scan config.comments 0 source.bytes)
    (ht : (p.reading config).token = some t) :
    (p.withReturns source.bytes).lexeme.payload
      = t.payload.withReturns (source.bytes[t.span.stop]? == some lineFeed) := by
  obtain ⟨front, rest, hbytes, -, hends⟩ := Lexeme.exists_of_mem_scan hp
  obtain rfl := Lexeme.eq_of_token ht
  rw [Placed.withReturns]
  rcases Lexeme.exists_ascii_cons hends with hascii | ⟨b, hlexeme, -⟩
  · have hencoded :=
      (Lexeme.encoded_of_endsBefore hends (hbytes ▸ source.encoded_bytes) hascii).2.1
    have hclean : carriageReturn ∉ p.lexeme.spelling := by
      intro hmem
      refine h.clean ?_
      rw [hbytes]
      exact List.mem_append_right _ (List.mem_append_left _ hmem)
    refine Lexeme.payload_withReturns hencoded hclean ?_
    intro quote value hlexeme
    rw [List.head?_drop, ← stop_of_unterminated hlexeme]
    rfl
  · -- A byte outside of ASCII stands alone.
    rw [hlexeme]
    exact (Lexeme.withReturns_singlePayload _ b).symm

/-- What the token of a lexeme becomes: its payload turned, the same kind, on the same line and in
the same column. -/
theorem token (h : source.Turned returned) {t t' : Token}
    (hp : p ∈ Lexeme.scan config.comments 0 source.bytes)
    (ht : (p.reading config).token = some t)
    (ht' : ((p.withReturns source.bytes).reading config).token = some t') :
    t.Turned source returned t' := by
  have hpayload := h.payload_eq hp ht
  have hstop := stop_le_of_token hp ht
  have hstop' := stop_le_of_token (h.mem_scan hp) ht'
  have hoffset := Lexeme.turnedOffset_covered hp
  obtain rfl := Lexeme.eq_of_token ht
  obtain rfl := Lexeme.eq_of_token ht'
  refine ⟨hpayload, ?_, h.samePosition ?_ hstop hstop'⟩
  · exact (congrArg Payload.kind hpayload).trans (Payload.kind_withReturns _ _)
  · show (p.withReturns source.bytes).start + _ = _
    rw [hoffset, Placed.withReturns, Lexeme.covered_withReturns]

/-- What the problem of a lexeme becomes: the same cause, on the same line and in the same column.
-/
theorem problem (h : source.Turned returned) {problem problem' : Problem}
    (hp : p ∈ Lexeme.scan config.comments 0 source.bytes)
    (hproblem : (p.reading config).problem = some problem)
    (hproblem' : ((p.withReturns source.bytes).reading config).problem = some problem') :
    problem.Turned source returned problem' := by
  have hstop := stop_le_of_problem hp hproblem
  have hstop' := stop_le_of_problem (h.mem_scan hp) hproblem'
  rw [Placed.reading, Lexeme.problem_readAt, Option.map_eq_some_iff] at hproblem hproblem'
  obtain ⟨cause, hcause, rfl⟩ := hproblem
  obtain ⟨cause', hcause', rfl⟩ := hproblem'
  rw [Placed.withReturns, Lexeme.cause?_withReturns, hcause, Option.some.injEq] at hcause'
  exact ⟨hcause'.symm, h.samePosition rfl hstop hstop'⟩

/-- What the reading of a lexeme becomes. A token or a problem is there exactly if it was before. -/
theorem reading (h : source.Turned returned)
    (hp : p ∈ Lexeme.scan config.comments 0 source.bytes) :
    Reading.Turned source returned (p.reading config)
      ((p.withReturns source.bytes).reading config) where
  token := by
    refine rel_of_isSome_eq ?_ (fun _ _ ht ht' => h.token hp ht ht')
    rw [Placed.reading, Placed.reading, Lexeme.isSome_token_readAt, Lexeme.isSome_token_readAt,
      Placed.withReturns, Lexeme.isMalformed_withReturns]
  problem := by
    refine rel_of_isSome_eq ?_ (fun _ _ hproblem hproblem' => h.problem hp hproblem hproblem')
    rw [Placed.reading, Placed.reading, Lexeme.problem_readAt, Lexeme.problem_readAt,
      Placed.withReturns, Lexeme.cause?_withReturns, Option.isSome_map, Option.isSome_map]

/-- What the readings of the first source become, one by one, in a run that stops at the same
reading if it stops early. -/
theorem readings (h : source.Turned returned) (config : Config) :
    List.Forall₂ (Reading.Turned source returned) (Lexeme.readings config 0 source.bytes)
      (Lexeme.readings config 0 returned.bytes) := by
  rw [Lexeme.readings, Lexeme.readings, h.scan_eq, List.map_map]
  refine Reading.forall₂_untilStop (fun _ _ hreading => isSome_eq_of_rel hreading.token) ?_
  rw [List.forall₂_map_left_iff, List.forall₂_map_right_iff, List.forall₂_same]
  intro p hp
  exact h.reading hp

end Source.Turned

/-- Put a carriage return in front of each line feed of a source without one, and a lexer finds
the same tokens and the same problems on the same lines and columns. They say the same, but for
the carriage returns in block comments and at the end of a literal that is broken off. -/
theorem drains_withReturns (config : Config) {source returned : Source}
    (hclean : '\r' ∉ source.text.toList) (htext : returned.text = Text.withReturns source.text) :
    ∃ tokens problems tokens' problems', Lexer.Drains source config tokens problems ∧
      Lexer.Drains returned config tokens' problems' ∧
      List.Forall₂ (Token.Turned source returned) tokens tokens' ∧
      List.Forall₂ (Problem.Turned source returned) problems problems' := by
  have hturned : source.Turned returned := by
    refine ⟨?_, ?_⟩
    · rw [returned.bytes_eq, htext, Text.bytes_withReturns, ← source.bytes_eq]
    · intro hmem
      rw [source.bytes_eq] at hmem
      exact hclean (Text.mem_toList_of_mem_bytes (by decide) hmem)
  have hreadings := hturned.readings config
  refine ⟨_, _, _, _, Lexer.drains_readings source config, Lexer.drains_readings returned config,
    ?_, ?_⟩
  · exact List.rel_filterMap (fun _ _ hreading => hreading.token) hreadings
  · exact List.rel_filterMap (fun _ _ hreading => hreading.problem) hreadings

/-- A literal that is broken off takes the carriage return in, and the malformed number on the
next line stays. -/
theorem drains_withReturns_broken_off :
    '\r' ∉ (⟨"'a\n1.2.3", _, rfl, by decide⟩ : Source).text.toList ∧
      (⟨"'a\r\n1.2.3", _, rfl, by decide⟩ : Source).text
        = Text.withReturns (⟨"'a\n1.2.3", _, rfl, by decide⟩ : Source).text ∧
      ∃ tokens problems, Lexer.Drains ⟨"'a\r\n1.2.3", _, rfl, by decide⟩
          { malformedNumber := .errorToken } tokens problems ∧
        tokens.map Token.payload
          = [.literal (.quoted .char "a\r" false), .unknown "1.2.3"] ∧
        problems.map Problem.cause = [.malformedNumber "1.2.3"] := by
  let source : Source := ⟨"'a\n1.2.3", _, rfl, by decide⟩
  let returned : Source := ⟨"'a\r\n1.2.3", _, rfl, by decide⟩
  let config : Config := { malformedNumber := .errorToken }
  have hclean : '\r' ∉ source.text.toList := by decide
  have htext : returned.text = Text.withReturns source.text := by decide
  have hsource : Lexer.Drains source config
      [⟨.literal (.quoted .char "a" false), ⟨1, 1⟩⟩, ⟨.unknown "1.2.3", ⟨3, 5⟩⟩]
      [⟨.malformedNumber "1.2.3", ⟨3, 5⟩⟩] :=
    ⟨_, (Lexer.drain_of_some rfl).trans
      (congrArg _ ((Lexer.drain_of_some rfl).trans (congrArg _ (Lexer.drain_of_none rfl)))), rfl⟩
  obtain ⟨tokens, problems, tokens', problems', hdrains, hdrains', htokens, hproblems⟩ :=
    drains_withReturns config hclean htext
  obtain ⟨rfl, rfl⟩ := hsource.unique hdrains
  refine ⟨hclean, htext, tokens', problems', hdrains', ?_, ?_⟩
  · cases htokens with
    | cons hliteral hbehind =>
      cases hbehind with
      | cons hnumber hnone =>
        cases hnone
        rw [List.map_cons, List.map_cons, hliteral.payload_eq, hnumber.payload_eq]
        decide
  · cases hproblems with
    | cons hnumber hnone =>
      cases hnone
      rw [List.map_cons, hnumber.cause_eq]
      rfl

end Lexis
