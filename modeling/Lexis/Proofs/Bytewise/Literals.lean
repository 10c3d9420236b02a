import Lexis.Proofs.Bytewise.Scanner
import Lexis.Proofs.LexicalGrammar

/-!
# `Lexis.Proofs.Bytewise.Literals`: words, numbers and quoted literals by checked steps

None of the steps faults that scan a word, a number or a quoted literal. A number is collected by
a predicate that keeps where the first dot stands. It stops at a second dot, and then what is
left of the number is looked at before the cursor moves. The theorems:

* `Lexer.scanWord_eq`, `Lexer.scanNumber_eq`, `Lexer.scanQuoted_eq`: what they are scanned as.
-/

set_option autoImplicit false

namespace Lexis

namespace Lexer

variable {l : Lexer} {n : Nat} {b : UInt8} {tail : List UInt8}

/-! ### Words -/

/-- A byte that starts a word may also stand within it. There are 256 bytes, and each is tried. -/
theorem continuesWord_of_startsWord : ∀ {b : UInt8}, Byte.startsWord b = true →
    Byte.continuesWord b = true := by
  rintro ⟨b⟩
  revert b
  decide

/-- A word is scanned as the longest run of its bytes. It starts with the byte that decided for
it. -/
theorem scanWord_eq (hrest : l.rest = b :: tail) (hb : Byte.startsWord b = true) :
    l.ScansAs l.scanWord (.word (b :: tail.takeWhile Byte.continuesWord)) := by
  have hrun : l.rest.takeWhile Byte.continuesWord = b :: tail.takeWhile Byte.continuesWord := by
    rw [hrest, List.takeWhile_cons_of_pos (continuesWord_of_startsWord hb)]
  have hn := l.offset_add_lt (hrun ▸ List.takeWhile_prefix _).length_le
  have hsize := offset_lt_size (l := l) (by simp [hrest])
  refine ⟨hn, ?_⟩
  rw [scanWord, collectRun_eq_ok hrun hn (Nat.le_of_lt hsize), Checked.ok_bind]
  dsimp only
  rw [spanSince_moved, Checked.ok_bind]
  rfl

/-! ### Numbers -/

/-- What `Dots.ask` answers where the next offset is addressable. It is the same predicate without
the only step of it that can fault. -/
def Dots.answer (dots : Dots) (b : UInt8) : Bool × Dots :=
  if !Byte.continuesNumber b then (false, dots)
  else if b == Byte.dot && dots.first?.isSome then (false, { dots with isValid := false })
  else (true, { dots with
    first? := if b == Byte.dot then some dots.offset else dots.first?
    offset := dots.offset + 1 })

/-- The offset that is kept with the dots goes with the cursor, as the induction of a walk asks
for. So adding to it never faults where the cursor can move. -/
theorem Dots.ask_eq_ok (offset : Nat) (dots : Dots) (b : UInt8) (hoffset : dots.offset = offset)
    (hnext : offset + 1 < addressLimit) :
    dots.ask b = .ok (dots.answer b) ∧
      ((dots.answer b).1 = true → (dots.answer b).2.offset = offset + 1) := by
  subst hoffset
  rw [ask, answer]
  split
  · exact ⟨rfl, nofun⟩
  · split
    · exact ⟨rfl, nofun⟩
    · rw [Fault.offsetAfter_eq_ok hnext]
      exact ⟨rfl, fun _ => rfl⟩

/-- How many dots were seen, apart from a second one. -/
def Dots.count (dots : Dots) : Nat := dots.first?.isSome.toNat

/-- A byte that does not belong to a number ends it, and what was seen of dots stays as it is. -/
theorem Dots.answer_of_not_continues (dots : Dots) (hb : Byte.continuesNumber b = false) :
    dots.answer b = (false, dots) := by
  rw [answer, hb]
  rfl

/-- A second dot ends a number, and is noted: the number is no longer valid. The cursor does not
move over this dot. -/
theorem Dots.answer_second {dots : Dots} (hfirst : dots.first?.isSome = true) :
    dots.answer Byte.dot = (false, { dots with isValid := false }) := by
  rw [answer, hfirst]
  rfl

/-- A byte that belongs to a number is moved over unless it is a second dot. A first dot is
counted on the way, and digits are not. -/
theorem Dots.exists_accept {dots : Dots} (hb : Byte.continuesNumber b = true)
    (hfirst : b = Byte.dot → dots.first? = none) :
    ∃ next : Dots, dots.answer b = (true, next) ∧ next.isValid = dots.isValid ∧
      next.count = dots.count + if b == Byte.dot then 1 else 0 := by
  refine ⟨{ dots with
    first? := if b == Byte.dot then some dots.offset else dots.first?
    offset := dots.offset + 1 }, ?_, rfl, ?_⟩
  · have hnot : ¬(b == Byte.dot && dots.first?.isSome) = true := by
      rw [Bool.and_eq_true_iff, beq_iff_eq]
      rintro ⟨hdot, hsome⟩
      rw [hfirst hdot] at hsome
      cases hsome
    rw [answer, hb, Bool.not_true, if_neg Bool.false_ne_true, if_neg hnot]
  · by_cases hdot : b = Byte.dot
    · rw [count, count, hfirst hdot, hdot]
      rfl
    · rw [count, count, if_neg (by simpa using hdot), if_neg (by simpa using hdot)]
      rfl

/-- A number goes up to its second dot, or to its end. What was seen on the way says how many dots
the whole run has: `isValid` if at most one, `first?` if any. The induction carries the count of
those seen before, which is zero or one as long as the number goes on. -/
theorem acceptedFrom_dots (seen : Nat) (dots : Dots) (hvalid : dots.isValid = true)
    (bytes : List UInt8) :
    ∃ last : Dots, acceptedFrom Dots.answer seen dots bytes
        = (Lexeme.lengthToDot (1 - dots.count) seen (bytes.takeWhile Byte.continuesNumber), last) ∧
      (last.isValid = true
        ↔ dots.count + (bytes.takeWhile Byte.continuesNumber).count Byte.dot ≤ 1) ∧
      (last.first?.isSome = true
        ↔ 0 < dots.count + (bytes.takeWhile Byte.continuesNumber).count Byte.dot) := by
  -- Where nothing more belongs to the number, what was seen is all.
  have hdone (dots : Dots) (hvalid : dots.isValid = true) :
      (dots.isValid = true ↔ dots.count + 0 ≤ 1) ∧
        (dots.first?.isSome = true ↔ 0 < dots.count + 0) := by
    rw [hvalid, Dots.count]
    cases dots.first? <;> simp
  induction bytes generalizing seen dots with
  | nil => exact ⟨dots, rfl, hdone dots hvalid⟩
  | cons b rest ih =>
      rw [acceptedFrom, List.takeWhile_cons]
      cases hb : Byte.continuesNumber b with
      | false =>
          rw [Dots.answer_of_not_continues dots hb]
          exact ⟨dots, rfl, hdone dots hvalid⟩
      | true =>
          rw [if_pos rfl, Lexeme.lengthToDot, List.count_cons]
          by_cases hsecond : b = Byte.dot ∧ dots.first?.isSome = true
          · obtain ⟨rfl, hfirst⟩ := hsecond
            have hcount : dots.count = 1 := by
              rw [Dots.count, hfirst]
              rfl
            rw [Dots.answer_second hfirst, hcount]
            refine ⟨{ dots with isValid := false }, rfl, ?_, ?_⟩
            · simp
            · simp only [hfirst, true_iff]
              omega
          · have hfirst : b = Byte.dot → dots.first? = none := by
              intro hdot
              simpa [hdot] using hsecond
            obtain ⟨next, hanswer, hnext, hcount⟩ := Dots.exists_accept hb hfirst
            obtain ⟨last, haccepted, hone, hsome⟩ := ih (seen + 1) next (hnext.trans hvalid)
            rw [hanswer]
            refine ⟨last, ?_, ?_, ?_⟩
            · dsimp only
              rw [haccepted, hcount]
              by_cases hdot : b = Byte.dot
              · subst hdot
                rw [Dots.count, hfirst rfl]
                rfl
              · rw [if_neg (by simp [hdot]), if_neg (by simp [hdot]), if_neg (by simp [hdot]),
                  Nat.add_zero]
            · rw [hone, hcount]
              omega
            · rw [hsome, hcount]
              omega

/-- Where there are not as many dots, all the bytes come before the one in question, and looking
for it ends with them. -/
theorem lengthToDot_of_le {dots seen : Nat} {run : List UInt8} (h : run.count Byte.dot ≤ dots) :
    Lexeme.lengthToDot dots seen run = seen + run.length := by
  induction run generalizing dots seen with
  | nil => rfl
  | cons b rest ih =>
      rw [List.count_cons] at h
      rw [Lexeme.lengthToDot, List.length_cons]
      cases hb : b == Byte.dot with
      | false =>
          rw [hb] at h
          rw [if_neg (by simp), if_neg (by simp), ih (by simpa using h)]
          omega
      | true =>
          rw [hb, if_pos rfl] at h
          rw [if_neg (by simp; omega), if_pos rfl, ih (by omega)]
          omega

/-- A run with at most one dot is a number, and the dot makes it a float. Where the dot stands
does not matter: it may be the last byte. -/
theorem numberKind?_of_le {run : List UInt8} (h : run.count Byte.dot ≤ 1) :
    Lexeme.numberKind? run
      = some (if 0 < run.count Byte.dot then NumberKind.float else .int) := by
  rw [Lexeme.numberKind?]
  rcases Nat.eq_zero_or_pos (run.count Byte.dot) with hzero | hpos
  · rw [if_pos hzero, hzero, if_neg (Nat.lt_irrefl 0)]
  · rw [if_neg (Nat.ne_of_gt hpos), if_pos (Nat.le_antisymm h hpos), if_pos hpos]

/-- A run with more than one dot is no number. -/
theorem numberKind?_of_lt {run : List UInt8} (h : 1 < run.count Byte.dot) :
    Lexeme.numberKind? run = none := by
  rw [Lexeme.numberKind?, if_neg (by omega), if_neg (by omega)]

/-- Collecting a number ends at its second dot, or behind it all. What the predicate has noted by
then says which kind of number it is, and whether it is one. -/
theorem exists_collect_dots {run : List UInt8}
    (hrun : l.rest.takeWhile Byte.continuesNumber = run) (hle : l.offset ≤ l.source.size)
    (hend : Lexeme.lengthToSecondDot run = n) (hwithin : n ≤ run.length)
    (hn : l.offset + n < addressLimit) :
    ∃ last : Dots, l.collect Dots.ask ⟨none, true, l.offset⟩
        = .ok (run.take n, last, l.moved n hn) ∧
      (last.isValid = true ↔ run.count Byte.dot ≤ 1) ∧
      (last.first?.isSome = true ↔ 0 < run.count Byte.dot) := by
  obtain ⟨last, haccepted, hvalid, hfirst⟩ :=
    acceptedFrom_dots 0 ⟨none, true, l.offset⟩ rfl l.rest
  rw [hrun] at haccepted hvalid hfirst
  have hnone : (⟨none, true, l.offset⟩ : Dots).count = 0 := rfl
  rw [hnone, Nat.zero_add] at hvalid hfirst
  refine ⟨last, ?_, hvalid, hfirst⟩
  replace haccepted : acceptedFrom Dots.answer 0 ⟨none, true, l.offset⟩ l.rest = (n, last) := by
    rw [haccepted, ← hend]
    rfl
  have hprefix : run <+: l.rest := hrun ▸ List.takeWhile_prefix _
  have hstop : l.offset + n ≤ l.source.size := by
    have hlength := hprefix.length_le
    have hrest := l.length_rest
    omega
  have hwalk := walk_eq_ok Dots.ask_eq_ok rfl (show l.offset = l.offset from rfl) haccepted hn
  obtain ⟨behind, hbehind⟩ := hprefix
  rw [collect_eq_ok hwalk hstop, ← hbehind, List.take_append_of_le_length hwithin]

/-- The rest of a run behind its front is a run. A malformed number is taken in two parts, up to
its second dot and from there on. -/
theorem takeWhile_drop {belongs : UInt8 → Bool} {bytes run : List UInt8}
    (hrun : bytes.takeWhile belongs = run) (hle : n ≤ run.length) :
    (bytes.drop n).takeWhile belongs = run.drop n := by
  have hlongest := LongestRun.of_takeWhile belongs bytes
  have hsplit : bytes.takeWhile belongs ++ bytes.dropWhile belongs = bytes :=
    List.takeWhile_append_dropWhile
  rw [hrun] at hlongest hsplit
  have hbehind : LongestRun belongs (run.drop n) (bytes.dropWhile belongs) := by
    rw [← List.take_append_drop n run] at hlongest
    exact hlongest.of_append
  have hdrop : bytes.drop n = run.drop n ++ bytes.dropWhile belongs := by
    rw [← List.drop_append_of_le_length hle, hsplit]
  rw [hdrop, hbehind.takeWhile_append]

/-- From its second dot on a number is scanned as malformed. The span takes in all of the run, on
either choice; the cursor stays at the second dot if the number is suppressed, and moves behind
the run otherwise. -/
theorem scanMalformed_eq {run : List UInt8}
    (hrun : l.rest.takeWhile Byte.continuesNumber = run) (hle : l.offset ≤ l.source.size)
    (hcount : 1 < run.count Byte.dot)
    (hn : l.offset + Lexeme.lengthToSecondDot run < addressLimit) :
    l.ScansAs ((l.moved _ hn).scanMalformed l.offset) (.number run) := by
  have hkind := numberKind?_of_lt hcount
  have hlt := Lexeme.lengthToSecondDot_lt hkind
  have hprefix : run <+: l.rest := hrun ▸ List.takeWhile_prefix _
  have hwithin := hprefix.length_le
  have hwhole := l.offset_add_lt hwithin
  have hahead := bytesBetween_size (moved_within (by omega) hle hn)
  have hleft : ((l.moved _ hn).rest.takeWhile Byte.continuesNumber).length
      = run.length - Lexeme.lengthToSecondDot run := by
    rw [rest_moved, takeWhile_drop hrun (Nat.le_of_lt hlt), List.length_drop]
  have hstop : l.offset + Lexeme.lengthToSecondDot run
      + (run.length - Lexeme.lengthToSecondDot run) = l.offset + run.length := by omega
  have htext : (l.moved _ hn).bytesOf ⟨l.offset, run.length⟩ = .ok run := by
    rw [bytesOf_moved hn hwithin hle, ← List.prefix_iff_eq_take.mp hprefix]
  rw [scanMalformed, hahead, Checked.ok_bind]
  dsimp only
  rw [hleft, offset_moved, Fault.offsetAfter_eq_ok (by omega), Checked.ok_bind, hstop,
    Fault.offsetBefore_eq_ok (Nat.le_add_right _ _), Checked.ok_bind, Nat.add_sub_cancel_left,
    Span.make_eq_ok hwhole, Checked.ok_bind, htext, Checked.ok_bind]
  have hconfig : (l.moved _ hn).config = l.config := rfl
  rw [hconfig]
  cases hmalformed : l.config.malformedNumber with
  | suppress =>
      have hreading : (Lexeme.number run).readAt l.config l.offset
          = ⟨none, some ⟨.malformedNumber (Text.decode run), ⟨l.offset, run.length⟩⟩,
            Lexeme.lengthToSecondDot run⟩ := by
        rw [Lexeme.readAt, Lexeme.reading, hkind, hmalformed]
        rfl
      exact .of_reading hreading hn rfl
  | errorToken =>
      have hreading : (Lexeme.number run).readAt l.config l.offset
          = ⟨some ⟨.unknown (Text.decode run), ⟨l.offset, run.length⟩⟩,
            some ⟨.malformedNumber (Text.decode run), ⟨l.offset, run.length⟩⟩, run.length⟩ := by
        rw [Lexeme.readAt, Lexeme.reading, hkind, hmalformed]
        rfl
      refine .of_reading hreading hwhole ?_
      have hbehind : (l.moved _ hn).offset + (run.length - Lexeme.lengthToSecondDot run)
          < addressLimit := by
        rw [offset_moved, hstop]
        exact hwhole
      dsimp only
      rw [consume_noted _ hbehind, moved_moved,
        moved_congr (Nat.add_sub_cancel' (Nat.le_of_lt hlt))]
      rfl

/-- A number is scanned as the longest run of digits and dots. With at most one dot the collected
bytes are the run. Otherwise they stop at the second dot, and `scanMalformed_eq` takes over. -/
theorem scanNumber_eq (hrest : l.rest = b :: tail) (hb : Byte.isDigit b = true) :
    l.ScansAs l.scanNumber (.number (b :: tail.takeWhile Byte.continuesNumber)) := by
  have hcontinues : Byte.continuesNumber b = true := by rw [Byte.continuesNumber, hb, Bool.true_or]
  have hrun : l.rest.takeWhile Byte.continuesNumber
      = b :: tail.takeWhile Byte.continuesNumber := by
    rw [hrest, List.takeWhile_cons_of_pos hcontinues]
  generalize b :: tail.takeWhile Byte.continuesNumber = run at hrun
  have hprefix : run <+: l.rest := hrun ▸ List.takeWhile_prefix _
  have hsize := offset_lt_size (l := l) (by simp [hrest])
  have hwhole := l.offset_add_lt hprefix.length_le
  by_cases hcount : run.count Byte.dot ≤ 1
  · have hend : Lexeme.lengthToSecondDot run = run.length :=
      (lengthToDot_of_le hcount).trans (Nat.zero_add _)
    obtain ⟨last, hcollect, hvalid, hfirst⟩ :=
      exists_collect_dots hrun (Nat.le_of_lt hsize) hend (Nat.le_refl _) hwhole
    have hkind : (if last.first?.isSome then NumberKind.float else .int)
        = if 0 < run.count Byte.dot then NumberKind.float else .int := by
      simp only [hfirst]
    have hreading : (Lexeme.number run).readAt l.config l.offset
        = ⟨some ⟨.literal (.number (if 0 < run.count Byte.dot then NumberKind.float else .int)
            (Text.decode run) .decimal), ⟨l.offset, run.length⟩⟩, none, run.length⟩ := by
      rw [Lexeme.readAt, Lexeme.reading, numberKind?_of_le hcount]
      rfl
    refine .of_reading hreading hwhole ?_
    rw [scanNumber, hcollect, Checked.ok_bind]
    dsimp only
    rw [if_pos (hvalid.mpr hcount), spanSince_moved, Checked.ok_bind, hkind, List.take_length]
    rfl
  · have hmany : 1 < run.count Byte.dot := Nat.not_le.mp hcount
    have hlt := Lexeme.lengthToSecondDot_lt (numberKind?_of_lt hmany)
    have hn : l.offset + Lexeme.lengthToSecondDot run < addressLimit := by omega
    obtain ⟨last, hcollect, hvalid, -⟩ :=
      exists_collect_dots hrun (Nat.le_of_lt hsize) rfl (Nat.le_of_lt hlt) hn
    rw [scanNumber, hcollect, Checked.ok_bind]
    dsimp only
    rw [if_neg (fun h => hcount (hvalid.mp h))]
    exact scanMalformed_eq hrun (Nat.le_of_lt hsize) hmany hn

/-! ### Quoted literals -/

/-- A literal goes up to its quote or to the end of its line. The state that is left says which of
the two it was, and at the end of the source it is neither. -/
theorem acceptedFrom_askQuoted (quote : Quote) (body : List UInt8) :
    acceptedFrom (askQuoted quote) 0 false body
      = ((body.takeWhile (Lexeme.staysQuoted quote)).length,
        (body.dropWhile (Lexeme.staysQuoted quote)).head? == some Byte.lineFeed) := by
  have hquote : quote.byte ≠ Byte.lineFeed := by cases quote <;> decide
  induction body with
  | nil => rfl
  | cons b rest ih =>
      rw [acceptedFrom, askQuoted]
      by_cases hfeed : b = Byte.lineFeed
      · subst hfeed
        rw [List.takeWhile_cons_of_neg (by simp [Lexeme.staysQuoted]),
          List.dropWhile_cons_of_neg (by simp [Lexeme.staysQuoted])]
        rfl
      · by_cases hb : b = quote.byte
        · subst hb
          rw [List.takeWhile_cons_of_neg (by simp [Lexeme.staysQuoted]),
            List.dropWhile_cons_of_neg (by simp [Lexeme.staysQuoted])]
          simp [hquote]
        · have hstays : Lexeme.staysQuoted quote b = true := by simp [Lexeme.staysQuoted, hfeed, hb]
          have hother : (b != quote.byte) = true := by simpa using hb
          rw [List.takeWhile_cons_of_pos hstays, List.dropWhile_cons_of_pos hstays,
            if_neg (by simpa using hfeed), hother, List.length_cons]
          dsimp only
          rw [acceptedFrom_eq, ih, Nat.zero_add, Nat.add_comm]

/-- A literal is terminated if neither the end of its line nor the end of the source comes where
it stops. -/
theorem isTerminated_eq (quote : Quote) (body : List UInt8) :
    (!((body.dropWhile (Lexeme.staysQuoted quote)).head? == some Byte.lineFeed
        || (body.dropWhile (Lexeme.staysQuoted quote)).isEmpty))
      = ((body.dropWhile (Lexeme.staysQuoted quote)).head? == some quote.byte) := by
  have hquote : quote.byte ≠ Byte.lineFeed := by cases quote <;> decide
  have hstop := (LongestRun.of_takeWhile (Lexeme.staysQuoted quote) body).beyond
  cases hbehind : body.dropWhile (Lexeme.staysQuoted quote) with
  | nil => rfl
  | cons b rest =>
      rw [hbehind] at hstop
      have hb := hstop b rfl
      by_cases hfeed : b = Byte.lineFeed
      · subst hfeed
        simp [hquote.symm]
      · have hclose : b = quote.byte := by simpa [Lexeme.staysQuoted, hfeed] using hb
        simp [hclose, hquote]

/-- How many bytes a quoted literal takes: the opening quote, the value, and the closing quote if
there is one. -/
theorem width_quoted (quote : Quote) (value : List UInt8) (isTerminated : Bool) :
    (Lexeme.quoted quote value isTerminated).width = 1 + value.length + isTerminated.toNat := by
  cases isTerminated with
  | false =>
      rw [Lexeme.width_unterminated, Bool.toNat_false]
      omega
  | true =>
      rw [Lexeme.width_terminated, Bool.toNat_true]
      omega

/-- Collecting a literal ends where it stops, and what was seen there tells whether it is
terminated. -/
theorem exists_collect_quoted (quote : Quote) {body : List UInt8} (hrest : l.rest = body)
    (hle : l.offset ≤ l.source.size) :
    ∃ (broken : Bool)
      (hn : l.offset + (body.takeWhile (Lexeme.staysQuoted quote)).length < addressLimit),
      l.collect (fun broken b => .ok (askQuoted quote broken b)) false
        = .ok (body.takeWhile (Lexeme.staysQuoted quote), broken, l.moved _ hn) ∧
      (l.moved _ hn).rest = body.dropWhile (Lexeme.staysQuoted quote) ∧
      (!(broken || (l.moved _ hn).isAtEnd))
        = ((body.dropWhile (Lexeme.staysQuoted quote)).head? == some quote.byte) := by
  have haccepted := acceptedFrom_askQuoted quote body
  have hterminated := isTerminated_eq quote body
  have hsplit : body.takeWhile (Lexeme.staysQuoted quote)
      ++ body.dropWhile (Lexeme.staysQuoted quote) = body := List.takeWhile_append_dropWhile
  generalize body.takeWhile (Lexeme.staysQuoted quote) = value at haccepted hsplit ⊢
  generalize body.dropWhile (Lexeme.staysQuoted quote) = behind at haccepted hterminated hsplit ⊢
  rw [← hsplit] at hrest haccepted
  have hlength : l.rest.length = value.length + behind.length := by
    rw [hrest, List.length_append]
  have hsize := l.length_rest
  have hn := l.offset_add_lt (n := value.length) (by omega)
  have hbehind : (l.moved _ hn).rest = behind := by rw [rest_moved, hrest, List.drop_left]
  rw [← hrest] at haccepted
  refine ⟨behind.head? == some Byte.lineFeed, hn, ?_, hbehind, ?_⟩
  · rw [collect_eq_ok (walk_pure haccepted hn) (by omega), hrest, List.take_left]
  · rw [isAtEnd, hbehind]
    exact hterminated

/-- A quoted literal is scanned as the lexeme that its quote begins. Its span is built in either
of two ways, by its choice, and neither of them faults. -/
theorem scanQuoted_eq {quote : Quote} {body : List UInt8} (hrest : l.rest = quote.byte :: body) :
    l.ScansAs (l.scanQuoted quote) (Lexeme.quotedFrom quote body) := by
  have hsize := offset_lt_size (l := l) (by simp [hrest])
  have hone : l.offset + 1 < addressLimit := l.offset_add_lt (by simp [hrest])
  have hinner : (l.moved 1 hone).rest = body := by
    rw [rest_moved, hrest]
    rfl
  obtain ⟨broken, hvalue, hcollect, hbehind, hterminated⟩ :=
    exists_collect_quoted quote hinner (moved_within (by simp [hrest]) (Nat.le_of_lt hsize) hone)
  rw [Lexeme.quotedFrom]
  generalize body.takeWhile (Lexeme.staysQuoted quote) = value
    at hvalue hcollect hbehind hterminated ⊢
  generalize body.dropWhile (Lexeme.staysQuoted quote) = behind at hbehind hterminated ⊢
  have hclose : (behind.head? == some quote.byte).toNat ≤ behind.length := by
    refine toNat_le_length ?_
    rintro rfl
    rfl
  generalize (behind.head? == some quote.byte) = isTerminated at hterminated hclose ⊢
  have hwidth := width_quoted quote value isTerminated
  have hn := ((l.moved 1 hone).moved value.length hvalue).offset_add_lt (hbehind ▸ hclose)
  rw [offset_moved, offset_moved, Nat.add_assoc, Nat.add_assoc, ← Nat.add_assoc 1, ← hwidth] at hn
  have hconsume : ((l.moved 1 hone).moved value.length hvalue).consume isTerminated.toNat
      = .ok (l.moved (Lexeme.quoted quote value isTerminated).width hn) := by
    rw [consume_of_le (hbehind ▸ hclose), moved_moved, moved_moved]
    exact congrArg _ (moved_congr (by rw [hwidth, Nat.add_assoc]) _)
  have hreading : (Lexeme.quoted quote value isTerminated).readAt l.config l.offset
      = ⟨some ⟨.literal (.quoted quote (Text.decode value) isTerminated),
          l.offset + ((Lexeme.quoted quote value isTerminated).covered l.config).1,
          ((Lexeme.quoted quote value isTerminated).covered l.config).2⟩,
        none, (Lexeme.quoted quote value isTerminated).width⟩ := rfl
  refine .of_reading hreading hn ?_
  rw [scanQuoted, consume_eq_ok hone, Checked.ok_bind]
  dsimp only
  rw [hcollect, Checked.ok_bind]
  dsimp only
  rw [hterminated, spanSince_moved, Checked.ok_bind, hconsume, Checked.ok_bind, Lexeme.covered]
  cases l.config.quoteSpan with
  | content => rfl
  | delimited =>
      dsimp only
      rw [spanFrom_moved]
      rfl

end Lexer

end Lexis
