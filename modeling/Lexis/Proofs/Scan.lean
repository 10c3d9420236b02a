import Lexis.Lexer.Run
import Lexis.Proofs.LexicalGrammar

/-!
# `Lexis.Proofs.Scan`: the lexemes of a source, and the run that reads them

A run of the lexer moves a cursor and records problems as it goes. What it gives depends on
neither: the bytes ahead fall into lexemes, each lexeme comes to a `Reading` at its place,
and the run stops after the first reading without a token. `Lexeme.scan` is the list of
lexemes with their offsets and `Lexeme.readings` the list of readings. The theorems:

* `Lexeme.scan_cons_of_isBlank`, `Lexeme.scan_spelling_append`: the two steps of a scan, past
  one blank and past one lexeme, and `Lexeme.scan_induction`: these steps reach every end.
* `Lexeme.exists_of_mem_scan`: where a lexeme of a scan stands, and what ends it.
  `Lexeme.exists_of_mem_tokens` says so of the lexeme behind a token of a run.
* `Lexeme.pairwise_scan`: the lexemes of a scan stand one behind the other.
* `Lexeme.isBlank_of_uncovered`: between them there are blanks only.
* `Lexer.drain_of_ahead`: draining gives the tokens and the problems of the readings, and ends
  where they stop, from any state that can still give a token. `Lexer.drain_start` and
  `Lexer.drains_readings` say so of a fresh lexer.
-/

set_option autoImplicit false

namespace Lexis

/-- A lexeme and the offset of its first byte. -/
structure Placed where
  start : Nat
  lexeme : Lexeme
  deriving DecidableEq, Repr

namespace Placed

/-- One past the last byte. -/
def stop (p : Placed) : Nat := p.start + p.lexeme.width

/-- The bytes of the lexeme. -/
def span (p : Placed) : Span := ⟨p.start, p.lexeme.width⟩

/-- What the lexeme comes to at its place. -/
def reading (config : Config) (p : Placed) : Reading := p.lexeme.readAt config p.start

end Placed

/-! ### The lexemes of a source -/

namespace Lexeme

/-- The lexemes of `bytes`, without the blanks between them. The first of the bytes has the offset
`offset`. All of them are listed, also those behind a number that ends a run. -/
def scan (comments : Bool) (offset : Nat) (bytes : List UInt8) : List Placed :=
  match bytes with
  | [] => []
  | b :: rest =>
    if Byte.isBlank b then scan comments (offset + 1) rest
    else
      match _h : ofBytes? comments (b :: rest) with
      | none => []
      | some lexeme =>
        ⟨offset, lexeme⟩ :: scan comments (offset + lexeme.width) ((b :: rest).drop lexeme.width)
termination_by bytes.length
decreasing_by
  · exact Nat.lt_succ_self _
  · have hpos := length_spelling_pos _h
    simp only [List.length_drop, List.length_cons]
    omega

variable {comments : Bool} {offset : Nat}

/-- No bytes have no lexemes. -/
theorem scan_nil : scan comments offset [] = [] := by
  rw [scan]

/-- A blank in front is no lexeme, and moves what comes behind it by one byte. Spaces, tabs, line
feeds and carriage returns are such. -/
theorem scan_cons_of_isBlank {b : UInt8} (hb : Byte.isBlank b = true) (rest : List UInt8) :
    scan comments offset (b :: rest) = scan comments (offset + 1) rest := by
  rw [scan, if_pos hb]

/-- A lexeme in front is the first of the scan, and what comes behind it is scanned from its end
on. -/
theorem scan_spelling_append {lexeme : Lexeme} {rest : List UInt8}
    (h : EndsBefore comments lexeme rest) :
    scan comments offset (lexeme.spelling ++ rest)
      = ⟨offset, lexeme⟩ :: scan comments (offset + lexeme.width) rest := by
  obtain ⟨b, tail, hspelling, hblank⟩ := exists_spelling_eq_cons h
  have hread := ofBytes?_of_endsBefore h
  have hdrop : (lexeme.spelling ++ rest).drop lexeme.width = rest := List.drop_left
  rw [hspelling, List.cons_append] at hread hdrop ⊢
  rw [scan, if_neg (by simp [hblank])]
  split
  · next hnone => simp [hread] at hnone
  · next found hfound =>
      obtain rfl : lexeme = found := by simpa [hread] using hfound
      rw [hdrop]

/-- Induction along a scan: nothing ahead, a blank ahead, or a lexeme ahead. The cases are those
of the scan's equations, and the lexeme comes with what ends it, so that proofs about a scan open
neither `scan` nor `ofBytes?`. -/
theorem scan_induction (comments : Bool) {motive : Nat → List UInt8 → Prop}
    (nil : ∀ offset, motive offset [])
    (blank : ∀ offset b rest, Byte.isBlank b = true → motive (offset + 1) rest →
      motive offset (b :: rest))
    (lexeme : ∀ offset lexeme rest, EndsBefore comments lexeme rest →
      motive (offset + lexeme.width) rest → motive offset (lexeme.spelling ++ rest))
    (offset : Nat) (bytes : List UInt8) : motive offset bytes := by
  induction hn : bytes.length using Nat.strongRecOn generalizing offset bytes with
  | ind n ih =>
      subst hn
      cases bytes with
      | nil => exact nil offset
      | cons b rest =>
          cases hblank : Byte.isBlank b with
          | true => exact blank offset b rest hblank (ih _ (Nat.lt_succ_self _) _ rest rfl)
          | false =>
              -- No lexeme is empty, so that what follows it is shorter.
              obtain ⟨found, after, hbytes, hends⟩ := exists_endsBefore comments hblank rest
              obtain ⟨c, tail, hspelling, -⟩ := exists_spelling_eq_cons hends
              have hlen : after.length < (b :: rest).length := by
                rw [hbytes, hspelling, List.length_append, List.length_cons]
                omega
              rw [hbytes]
              exact lexeme offset found after hends (ih _ hlen _ after rfl)

/-- A lexeme of a scan stands in the bytes at its offset, and it ends before the bytes that follow
it there. With this a fact about one lexeme in its place is a fact about all lexemes of a source. -/
theorem exists_of_mem_scan {bytes : List UInt8} {p : Placed} (hp : p ∈ scan comments offset bytes) :
    ∃ front rest, bytes = front ++ (p.lexeme.spelling ++ rest) ∧
      p.start = offset + front.length ∧ EndsBefore comments p.lexeme rest := by
  induction offset, bytes using scan_induction comments with
  | nil offset => simp [scan_nil] at hp
  | blank offset b rest hb ih =>
      rw [scan_cons_of_isBlank hb] at hp
      obtain ⟨front, after, rfl, hstart, hends⟩ := ih hp
      exact ⟨b :: front, after, rfl, by simp only [hstart, List.length_cons]; omega, hends⟩
  | lexeme offset lexeme rest hends ih =>
      rw [scan_spelling_append hends, List.mem_cons] at hp
      -- The lexeme in question is the first one, or it stands behind that one.
      rcases hp with rfl | hp
      · exact ⟨[], rest, rfl, rfl, hends⟩
      · obtain ⟨front, after, rfl, hstart, hends'⟩ := ih hp
        refine ⟨lexeme.spelling ++ front, after, by simp, ?_, hends'⟩
        rw [hstart, List.length_append, width]
        omega

/-- A lexeme of a scan lies within the bytes. It is not empty, starts no earlier than the scan
does, and ends no later than the bytes do. -/
theorem offset_le_of_mem_scan {bytes : List UInt8} {p : Placed}
    (hp : p ∈ scan comments offset bytes) :
    offset ≤ p.start ∧ p.start < p.stop ∧ p.stop ≤ offset + bytes.length := by
  obtain ⟨front, rest, rfl, hstart, hends⟩ := exists_of_mem_scan hp
  obtain ⟨b, tail, hspelling, -⟩ := exists_spelling_eq_cons hends
  simp only [Placed.stop, width, List.length_append, hspelling, List.length_cons]
  omega

/-- What holds of a lexeme and every one behind it holds of any two lexemes of a scan. Only one
step of a scan has to be looked at. -/
theorem pairwise_scan_of {R : Placed → Placed → Prop}
    (h : ∀ offset lexeme rest, EndsBefore comments lexeme rest →
      ∀ q ∈ scan comments (offset + lexeme.width) rest, R ⟨offset, lexeme⟩ q)
    (offset : Nat) (bytes : List UInt8) : (scan comments offset bytes).Pairwise R := by
  induction offset, bytes using scan_induction comments with
  | nil offset => simp [scan_nil]
  | blank offset b rest hb ih =>
      rw [scan_cons_of_isBlank hb]
      exact ih
  | lexeme offset lexeme rest hends ih =>
      rw [scan_spelling_append hends, List.pairwise_cons]
      exact ⟨h offset lexeme rest hends, ih⟩

/-- The lexemes of a scan stand one behind the other, and none of them reaches into a later one. -/
theorem pairwise_scan (comments : Bool) (offset : Nat) (bytes : List UInt8) :
    (scan comments offset bytes).Pairwise fun p q => p.stop ≤ q.start := by
  refine pairwise_scan_of ?_ offset bytes
  intro offset lexeme rest _ q hq
  exact (offset_le_of_mem_scan hq).1

/-- No two lexemes of a scan start at one offset. So an offset says which lexeme is meant. -/
theorem eq_of_mem_scan {bytes : List UInt8} {p q : Placed} (hp : p ∈ scan comments offset bytes)
    (hq : q ∈ scan comments offset bytes) (hstart : p.start = q.start) : p = q := by
  have hapart : (scan comments offset bytes).Pairwise fun p q => p.start ≠ q.start := by
    refine (pairwise_scan comments offset bytes).imp_of_mem ?_
    intro p q hp _ hle
    have hbounds := offset_le_of_mem_scan hp
    omega
  have hforth : (scan comments offset bytes).Pairwise fun p q => p.start = q.start → p = q := by
    refine hapart.imp ?_
    intro p q hne heq
    exact absurd heq hne
  have hback : (scan comments offset bytes).Pairwise fun p q => q.start = p.start → q = p := by
    refine hapart.imp ?_
    intro p q hne heq
    exact absurd heq.symm hne
  exact List.Pairwise.forall_of_forall_of_flip (fun _ _ _ => rfl) hforth hback hp hq hstart

/-- A byte outside of all lexemes of a scan is blank. So scanning passes over no other bytes than
it may, and each other byte is part of a lexeme. -/
theorem isBlank_of_uncovered {bytes : List UInt8} {i : Nat} {b : UInt8} (hb : bytes[i]? = some b)
    (hout : ∀ p ∈ scan comments offset bytes, ¬(p.start ≤ offset + i ∧ offset + i < p.stop)) :
    Byte.isBlank b = true := by
  induction offset, bytes using scan_induction comments generalizing i with
  | nil offset => simp at hb
  | blank offset c rest hc ih =>
      rw [scan_cons_of_isBlank hc] at hout
      cases i with
      | zero =>
          obtain rfl : c = b := by simpa using hb
          exact hc
      | succ i =>
          refine ih (i := i) (by simpa using hb) ?_
          intro p hp
          rw [show offset + 1 + i = offset + (i + 1) by omega]
          exact hout p hp
  | lexeme offset lexeme rest hends ih =>
      rw [scan_spelling_append hends] at hout
      -- The byte does not stand in the first lexeme, so it stands behind it.
      have hfirst := hout ⟨offset, lexeme⟩ List.mem_cons_self
      have hi : lexeme.width ≤ i := by
        simp only [Placed.stop] at hfirst
        omega
      refine ih (i := i - lexeme.width) ?_ ?_
      · rw [List.getElem?_append_right hi] at hb
        exact hb
      · intro p hp
        rw [show offset + lexeme.width + (i - lexeme.width) = offset + i by omega]
        exact hout p (List.mem_cons_of_mem _ hp)

/-- Blanks in front are skipped. -/
theorem scan_append_of_isBlank {blanks : List UInt8} (h : ∀ b ∈ blanks, Byte.isBlank b = true)
    (rest : List UInt8) :
    scan comments offset (blanks ++ rest) = scan comments (offset + blanks.length) rest := by
  induction blanks generalizing offset with
  | nil => rfl
  | cons b blanks ih =>
      have hblanks : ∀ c ∈ blanks, Byte.isBlank c = true := by
        intro c hc
        exact h c (List.mem_cons_of_mem b hc)
      rw [List.cons_append, scan_cons_of_isBlank (h b List.mem_cons_self), ih hblanks,
        List.length_cons, Nat.add_right_comm, Nat.add_assoc]

/-- The blanks in front of the first lexeme can be left out at once, as a call for a token does
before it looks at what is ahead. -/
theorem scan_dropWhile_isBlank (comments : Bool) (offset : Nat) (bytes : List UInt8) :
    scan comments (offset + (bytes.takeWhile Byte.isBlank).length) (bytes.dropWhile Byte.isBlank)
      = scan comments offset bytes := by
  have hblanks : ∀ b ∈ bytes.takeWhile Byte.isBlank, Byte.isBlank b = true := by
    intro b hb
    exact List.all_eq_true.mp List.all_takeWhile b hb
  rw [← scan_append_of_isBlank hblanks, List.takeWhile_append_dropWhile]

end Lexeme

/-! ### The readings of a source -/

/-- The readings up to the first one without a token. No token follows that one. It is kept, since
it may have a problem. -/
def Reading.untilStop : List Reading → List Reading
  | [] => []
  | reading :: later => if reading.token.isSome then reading :: untilStop later else [reading]

/-- A reading with a token is kept, and so is what a run reads behind it. -/
theorem Reading.untilStop_cons_of_some {reading : Reading} {t : Token}
    (h : reading.token = some t) (later : List Reading) :
    untilStop (reading :: later) = reading :: untilStop later := by
  rw [untilStop, if_pos (by simp [h])]

/-- A reading without a token is the last one. It is kept for its problem. -/
theorem Reading.untilStop_cons_of_none {reading : Reading} (h : reading.token = none)
    (later : List Reading) : untilStop (reading :: later) = [reading] := by
  rw [untilStop, if_neg (by simp [h])]

/-- Readings with a token do not stop a run, and what comes behind them is read as if they
were not there. -/
theorem Reading.untilStop_append {front : List Reading}
    (h : ∀ reading ∈ front, reading.token.isSome = true) (later : List Reading) :
    untilStop (front ++ later) = front ++ untilStop later := by
  induction front with
  | nil => rfl
  | cons reading front ih =>
      have hfront : ∀ reading ∈ front, reading.token.isSome = true := by
        intro other hother
        exact h other (List.mem_cons_of_mem _ hother)
      rw [List.cons_append, untilStop, if_pos (h reading List.mem_cons_self), ih hfront,
        List.cons_append]

/-- A run reads the front of the readings: all of them, or those up to the first one without a
token. -/
theorem Reading.untilStop_isPrefix (readings : List Reading) :
    untilStop readings <+: readings := by
  induction readings with
  | nil => exact List.prefix_rfl
  | cons first later ih =>
      rw [untilStop]
      split
      · exact (List.prefix_cons_inj first).mpr ih
      · exact ⟨later, rfl⟩

/-- What the lexemes of `bytes` come to, as far as a run reads them. -/
def Lexeme.readings (config : Config) (offset : Nat) (bytes : List UInt8) : List Reading :=
  Reading.untilStop ((scan config.comments offset bytes).map (Placed.reading config))

/-- What a run reads is the reading of some lexeme of the scan. The converse fails behind a
suppressed number. -/
theorem Lexeme.mem_readings {config : Config} {offset : Nat} {bytes : List UInt8}
    {reading : Reading} (h : reading ∈ readings config offset bytes) :
    ∃ p ∈ scan config.comments offset bytes, p.reading config = reading :=
  List.mem_map.mp ((Reading.untilStop_isPrefix _).subset h)

/-- A reading of a run is that of a lexeme of the bytes, which starts where the bytes in front of it
end. -/
theorem Lexeme.exists_of_mem_readings {config : Config} {bytes : List UInt8} {reading : Reading}
    (h : reading ∈ readings config 0 bytes) :
    ∃ front lexeme rest, bytes = front ++ (lexeme.spelling ++ rest) ∧
      EndsBefore config.comments lexeme rest ∧ reading = lexeme.readAt config front.length := by
  obtain ⟨⟨start, lexeme⟩, hp, rfl⟩ := mem_readings h
  obtain ⟨front, rest, hbytes, hstart, hends⟩ := exists_of_mem_scan hp
  obtain rfl : start = front.length := hstart.trans (Nat.zero_add _)
  exact ⟨front, lexeme, rest, hbytes, hends, rfl⟩

/-- So is a token of a run: it stands where its lexeme does, and it is the one that its lexeme
comes to. Facts about all tokens of a source start with this. -/
theorem Lexeme.exists_of_mem_tokens {config : Config} {bytes : List UInt8} {t : Token}
    (h : t ∈ (readings config 0 bytes).filterMap (·.token)) :
    ∃ front lexeme rest, bytes = front ++ (lexeme.spelling ++ rest) ∧
      EndsBefore config.comments lexeme rest ∧
      (lexeme.readAt config front.length).token = some t := by
  obtain ⟨reading, hreading, htoken⟩ := List.mem_filterMap.mp h
  obtain ⟨front, lexeme, rest, hbytes, hends, rfl⟩ := exists_of_mem_readings hreading
  exact ⟨front, lexeme, rest, hbytes, hends, htoken⟩

/-- If all lexemes come to tokens, then all of them are read. This is so for every source where a
malformed number makes a token. -/
theorem Lexeme.readings_eq_map {config : Config} {offset : Nat} {bytes : List UInt8}
    (h : ∀ p ∈ scan config.comments offset bytes, (p.reading config).token.isSome = true) :
    readings config offset bytes
      = (scan config.comments offset bytes).map (Placed.reading config) := by
  have hall := Reading.untilStop_append (List.forall_mem_map.mpr h) []
  rw [List.append_nil] at hall
  rw [readings, hall]
  exact List.append_nil _

namespace Lexeme

variable {config : Config} {offset : Nat}

/-- Where no byte is, nothing is read. -/
theorem readings_nil : readings config offset [] = [] := by
  rw [readings, scan_nil]
  rfl

/-- Blanks in front are not read. -/
theorem readings_append_of_isBlank {blanks : List UInt8}
    (h : ∀ b ∈ blanks, Byte.isBlank b = true) (rest : List UInt8) :
    readings config offset (blanks ++ rest) = readings config (offset + blanks.length) rest := by
  rw [readings, scan_append_of_isBlank h]
  rfl

/-- A blank in front is not read. -/
theorem readings_cons_of_isBlank {b : UInt8} (hb : Byte.isBlank b = true) (rest : List UInt8) :
    readings config offset (b :: rest) = readings config (offset + 1) rest := by
  rw [readings, scan_cons_of_isBlank hb]
  rfl

/-- A lexeme with a token is read, and so is what comes behind it. `h` is what makes it the first
lexeme of the bytes, with just this end. -/
theorem readings_of_some {lexeme : Lexeme} {rest : List UInt8} {t : Token}
    (h : EndsBefore config.comments lexeme rest)
    (htoken : (lexeme.readAt config offset).token = some t) :
    readings config offset (lexeme.spelling ++ rest)
      = lexeme.readAt config offset :: readings config (offset + lexeme.width) rest := by
  have hread : (Placed.reading config ⟨offset, lexeme⟩).token = some t := htoken
  rw [readings, scan_spelling_append h, List.map_cons, Reading.untilStop_cons_of_some hread]
  rfl

/-- A lexeme without a token is read, and nothing behind it. The run is over, though there may be
bytes left. -/
theorem readings_of_none {lexeme : Lexeme} {rest : List UInt8}
    (h : EndsBefore config.comments lexeme rest)
    (htoken : (lexeme.readAt config offset).token = none) :
    readings config offset (lexeme.spelling ++ rest) = [lexeme.readAt config offset] := by
  have hread : (Placed.reading config ⟨offset, lexeme⟩).token = none := htoken
  rw [readings, scan_spelling_append h, List.map_cons, Reading.untilStop_cons_of_none hread]
  rfl

/-- Where a run over lexemes comes to its end: within the first one without a token, or else
at `stop`, behind all of the bytes. -/
def endOffset (config : Config) (stop : Nat) (placed : List Placed) : Nat :=
  match placed.find? fun p => (p.reading config).token.isNone with
  | none => stop
  | some p => p.start + (p.reading config).advance

/-- A lexeme with a token does not end a run. -/
theorem endOffset_cons_of_some {p : Placed} {t : Token} (h : (p.reading config).token = some t)
    (stop : Nat) (later : List Placed) :
    endOffset config stop (p :: later) = endOffset config stop later := by
  rw [endOffset, List.find?_cons_of_neg (by simp [h])]
  rfl

/-- A lexeme without a token ends the run within itself, as far as the cursor moves for it. -/
theorem endOffset_cons_of_none {p : Placed} (h : (p.reading config).token = none)
    (stop : Nat) (later : List Placed) :
    endOffset config stop (p :: later) = p.start + (p.reading config).advance := by
  rw [endOffset, List.find?_cons_of_pos (by simp [h])]

end Lexeme

namespace Lexer

/-- Behind the blanks the bytes ahead start with one that is not blank, or there are none. The
blanks are moved over all at once. -/
theorem rest_skipBlanks (l : Lexer) : l.skipBlanks.rest = l.rest.dropWhile Byte.isBlank := by
  have hsplit : l.rest.takeWhile Byte.isBlank ++ l.rest.dropWhile Byte.isBlank = l.rest :=
    List.takeWhile_append_dropWhile
  show l.rest.drop (l.rest.takeWhile Byte.isBlank).length = _
  calc l.rest.drop (l.rest.takeWhile Byte.isBlank).length
      = (l.rest.takeWhile Byte.isBlank ++ l.rest.dropWhile Byte.isBlank).drop
          (l.rest.takeWhile Byte.isBlank).length := by rw [hsplit]
    _ = l.rest.dropWhile Byte.isBlank := List.drop_left

/-- The scan from a state without a lexeme ahead is empty: only blanks are left, since any other
byte begins a lexeme. -/
theorem scan_of_lexeme?_eq_none {l : Lexer} (h : l.lexeme? = none) :
    Lexeme.scan l.config.comments l.offset l.rest = [] := by
  rw [lexeme?, Lexeme.ofBytes?_eq_none_iff, rest_skipBlanks] at h
  rw [← Lexeme.scan_dropWhile_isBlank, h, Lexeme.scan_nil]

/-- A lexeme ahead stands where the blanks end, and it ends before what follows it there. -/
theorem exists_rest_eq_of_lexeme? {l : Lexer} {lexeme : Lexeme} (h : l.lexeme? = some lexeme) :
    ∃ after, l.skipBlanks.rest = lexeme.spelling ++ after ∧
      Lexeme.EndsBefore l.config.comments lexeme after := by
  rw [lexeme?] at h
  cases hrest : l.skipBlanks.rest with
  | nil => simp [hrest, Lexeme.ofBytes?] at h
  | cons b tail =>
      -- The blanks end where a byte is not blank.
      have hblank : Byte.isBlank b = false := by
        have hstop := List.head?_dropWhile_not Byte.isBlank l.rest
        rw [← rest_skipBlanks, hrest] at hstop
        simpa using hstop
      rw [hrest] at h
      exact (Lexeme.ofBytes?_cons_eq_some_iff hblank).mp h

/-- The scan from a state with a lexeme ahead starts with that lexeme, behind the blanks, and goes
on behind it. -/
theorem scan_of_lexeme?_eq_some {l : Lexer} {lexeme : Lexeme} (h : l.lexeme? = some lexeme) :
    Lexeme.scan l.config.comments l.offset l.rest
      = ⟨l.skipBlanks.offset, lexeme⟩ :: Lexeme.scan l.config.comments
          (l.skipBlanks.offset + lexeme.width) (l.skipBlanks.rest.drop lexeme.width) := by
  obtain ⟨after, hafter, hends⟩ := exists_rest_eq_of_lexeme? h
  have hdrop : (lexeme.spelling ++ after).drop lexeme.width = after := List.drop_left
  rw [← Lexeme.scan_dropWhile_isBlank, ← rest_skipBlanks, hafter,
    Lexeme.scan_spelling_append hends, hdrop]
  rfl

/-- A problem is recorded behind those recorded before, and at most one for a reading. As lists,
since their order is what matters. -/
theorem problems_record (l : Lexer) (reading : Reading) :
    (l.record reading).problems.toList = l.problems.toList ++ reading.problem.toList := by
  unfold record
  cases hproblem : reading.problem with
  | none => simp
  | some problem => simp

/-- The lexemes ahead. It is all that a run depends on, next to the configuration. -/
def ahead (l : Lexer) : List Placed := Lexeme.scan l.config.comments l.offset l.rest

/-- Moving over blanks does not change where the source ends, seen from the cursor. -/
theorem offset_add_length_skipBlanks (l : Lexer) :
    l.skipBlanks.offset + l.skipBlanks.rest.length = l.offset + l.rest.length := by
  have hblanks : (l.rest.takeWhile Byte.isBlank).length ≤ l.rest.length :=
    (List.takeWhile_prefix _).length_le
  show l.offset + _ + (l.rest.drop _).length = _
  rw [List.length_drop]
  omega

/-- One call with nothing but blanks ahead. It finds no token, records nothing, and leads to the
end of the source. -/
theorem exists_next_of_ahead_nil {l : Lexer} (hfinished : l.finished = false)
    (h : l.ahead = []) :
    ∃ behind : Lexer, l.next = .ok (none, behind) ∧ behind.source = l.source ∧
      behind.problems = l.problems ∧ behind.offset = l.offset + l.rest.length := by
  cases hlexeme : l.lexeme? with
  | some lexeme =>
      rw [ahead, scan_of_lexeme?_eq_some hlexeme] at h
      cases h
  | none =>
      refine ⟨_, next_of_none hfinished hlexeme, rfl, rfl, ?_⟩
      have hrest : l.skipBlanks.rest = [] := Lexeme.ofBytes?_eq_none_iff.mp hlexeme
      have hsize := l.offset_add_length_skipBlanks
      rw [hrest] at hsize
      exact hsize

/-- One call with a lexeme ahead: its reading says what is found, what is recorded and how far
the lexer moves. With a token it moves behind the lexeme. -/
theorem exists_next_of_ahead_cons {l : Lexer} {p : Placed} {later : List Placed}
    (hfinished : l.finished = false) (h : l.ahead = p :: later) (reading : Reading)
    (hreading : p.reading l.config = reading) :
    ∃ behind : Lexer, l.next = .ok (reading.token, behind) ∧
      behind.source = l.source ∧ behind.config = l.config ∧
      behind.problems.toList = l.problems.toList ++ reading.problem.toList ∧
      behind.finished = reading.token.isNone ∧
      behind.offset = p.start + reading.advance ∧
      (reading.token.isSome = true → behind.ahead = later ∧
        behind.offset + behind.rest.length = l.offset + l.rest.length) := by
  subst hreading
  cases hlexeme : l.lexeme? with
  | none =>
      rw [ahead, scan_of_lexeme?_eq_none hlexeme] at h
      cases h
  | some lexeme =>
      rw [ahead, scan_of_lexeme?_eq_some hlexeme, List.cons.injEq] at h
      obtain ⟨rfl, rfl⟩ := h
      refine ⟨_, next_of_some hfinished hlexeme, rfl, rfl, problems_record _ _, rfl, rfl, ?_⟩
      intro hsome
      have hadvance : (lexeme.readAt l.config l.skipBlanks.offset).advance = lexeme.width :=
        Lexeme.advance_readAt hsome
      have hwidth : lexeme.width ≤ l.skipBlanks.rest.length :=
        (Lexeme.spelling_isPrefix hlexeme).length_le
      have hsize := l.offset_add_length_skipBlanks
      constructor
      · show Lexeme.scan l.config.comments (l.skipBlanks.offset + _)
          (l.skipBlanks.rest.drop _) = _
        rw [hadvance]
      · show l.skipBlanks.offset + _ + (l.skipBlanks.rest.drop _).length = _
        rw [hadvance, List.length_drop]
        omega

/-- Draining reads the lexemes ahead up to the first one without a token: it gives their tokens,
and it records their problems behind those recorded before. The source stays, and the end is where
`Lexeme.endOffset` says. The induction is on the lexemes ahead, one call for each. -/
theorem drain_of_ahead {l : Lexer} {placed : List Placed} (h : l.finished = false)
    (hahead : l.ahead = placed) :
    ∃ behind, l.drain = .ok
        ((Reading.untilStop (placed.map (Placed.reading l.config))).filterMap (·.token), behind) ∧
      behind.source = l.source ∧
      behind.problems.toList = l.problems.toList
        ++ (Reading.untilStop (placed.map (Placed.reading l.config))).filterMap (·.problem) ∧
      behind.offset = Lexeme.endOffset l.config (l.offset + l.rest.length) placed := by
  induction placed generalizing l with
  | nil =>
      obtain ⟨behind, hnext, hsource, hproblems, hoffset⟩ := exists_next_of_ahead_nil h hahead
      refine ⟨behind, drain_of_none hnext, hsource, ?_, hoffset⟩
      rw [hproblems]
      exact (List.append_nil _).symm
  | cons p later ih =>
      -- One step of the run is one lexeme, and the rest is the induction.
      rw [List.map_cons]
      generalize hreading : p.reading l.config = reading
      obtain ⟨m, hnext, hsource, hconfig, hproblems, hfinished, hoffset, hlater⟩ :=
        exists_next_of_ahead_cons h hahead reading hreading
      cases htoken : reading.token with
      | none =>
          -- The run ends with a problem and without a token.
          rw [htoken] at hnext
          rw [Reading.untilStop_cons_of_none htoken,
            Lexeme.endOffset_cons_of_none (hreading ▸ htoken), hreading]
          refine ⟨m, ?_, hsource, ?_, hoffset⟩
          · rw [drain_of_none hnext]
            simp [htoken]
          · rw [hproblems]
            cases hp : reading.problem <;> simp [hp]
      | some t =>
          rw [htoken] at hnext hfinished
          obtain ⟨hahead, hsize⟩ := hlater (by rw [htoken]; rfl)
          obtain ⟨behind, hdrain, hkept, hbehind, hend⟩ := ih hfinished hahead
          rw [hconfig] at hdrain hbehind hend
          rw [Reading.untilStop_cons_of_some htoken,
            Lexeme.endOffset_cons_of_some (hreading ▸ htoken), ← hsize]
          refine ⟨behind, ?_, hkept.trans hsource, ?_, hend⟩
          · rw [drain_of_some hnext, hdrain]
            simp [htoken, Except.map]
          · rw [hbehind, hproblems]
            cases hp : reading.problem <;> simp [hp]

/-- Draining a fresh lexer gives the tokens of the readings, records their problems, and comes to
its end where the lexemes say. It does so for every source and every choice: there is no fault. -/
theorem drain_start (source : Source) (config : Config) :
    ∃ behind, (start source config).drain = .ok
        ((Lexeme.readings config 0 source.bytes).filterMap (·.token), behind) ∧
      behind.source = source ∧
      behind.problems.toList = (Lexeme.readings config 0 source.bytes).filterMap (·.problem) ∧
      behind.offset
        = Lexeme.endOffset config source.size (Lexeme.scan config.comments 0 source.bytes) := by
  have hfinished : (start source config).finished = false := rfl
  obtain ⟨behind, hdrain, hsource, hproblems, hoffset⟩ := drain_of_ahead hfinished rfl
  refine ⟨behind, hdrain, hsource, hproblems, ?_⟩
  rw [hoffset, ← source.length_bytes, ← Nat.zero_add source.bytes.length]
  rfl

/-- What draining a fresh lexer came to. The outcome is taken apart by this where it is given. -/
theorem eq_of_drain_start {source : Source} {config : Config} {tokens : List Token}
    {behind : Lexer} (h : (start source config).drain = .ok (tokens, behind)) :
    tokens = (Lexeme.readings config 0 source.bytes).filterMap (·.token) ∧
      behind.source = source ∧
      behind.problems.toList = (Lexeme.readings config 0 source.bytes).filterMap (·.problem) ∧
      behind.offset
        = Lexeme.endOffset config source.size (Lexeme.scan config.comments 0 source.bytes) := by
  obtain ⟨found, hdrain, hfound⟩ := drain_start source config
  rw [h, Except.ok.injEq, Prod.mk.injEq] at hdrain
  obtain ⟨rfl, rfl⟩ := hdrain
  exact ⟨rfl, hfound⟩

/-- Draining a fresh lexer over a source gives the tokens and records the problems. That it does
is part of the statement, so a result about what is drained is never empty. -/
def Drains (source : Source) (config : Config) (tokens : List Token)
    (problems : List Problem) : Prop :=
  ∃ behind, (start source config).drain = .ok (tokens, behind) ∧ behind.problems.toList = problems

/-- What draining gives are the tokens and the problems of the readings. Every result about a
whole run starts here. -/
theorem drains_readings (source : Source) (config : Config) :
    Drains source config ((Lexeme.readings config 0 source.bytes).filterMap (·.token))
      ((Lexeme.readings config 0 source.bytes).filterMap (·.problem)) := by
  obtain ⟨behind, hdrain, -, hproblems, -⟩ := drain_start source config
  exact ⟨behind, hdrain, hproblems⟩

/-- Draining a fresh lexer has an outcome, for every source and every configuration: it does not
fault, and it comes to an end. -/
theorem exists_drains (source : Source) (config : Config) :
    ∃ tokens problems, Drains source config tokens problems :=
  ⟨_, _, drains_readings source config⟩

/-- There is one outcome of draining. So what is proved of the outcome that is found by
`drains_readings` holds of any other that is given. -/
theorem Drains.unique {source : Source} {config : Config} {tokens tokens' : List Token}
    {problems problems' : List Problem} (h : Drains source config tokens problems)
    (h' : Drains source config tokens' problems') : tokens = tokens' ∧ problems = problems' := by
  obtain ⟨behind, hdrain, rfl⟩ := h
  obtain ⟨behind', hdrain', rfl⟩ := h'
  rw [hdrain, Except.ok.injEq, Prod.mk.injEq] at hdrain'
  obtain ⟨rfl, rfl⟩ := hdrain'
  exact ⟨rfl, rfl⟩

end Lexer

end Lexis
