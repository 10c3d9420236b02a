import Lexis.Proofs.Bytewise.Comments
import Lexis.Proofs.Bytewise.Literals

/-!
# `Lexis.Proofs.Bytewise.Next`: the next token by checked steps

Wherever the cursor stands, scanning byte by byte faults nowhere. The theorems:

* `Lexer.scanAt_eq`: the cursor scans the lexeme that the bytes ahead begin with.
* `Lexer.nextBytewise_eq`: scanning byte by byte is scanning.
-/

set_option autoImplicit false

namespace Lexis

namespace Lexer

variable {l : Lexer} {n : Nat} {b : UInt8} {tail : List UInt8}

/-! ### Bytes that stand alone -/

/-- A byte that begins nothing else is scanned as a lexeme alone: as a symbol, or as unknown. -/
theorem scanSingle_eq (hrest : l.rest = b :: tail) : l.ScansAs l.scanSingle (.single b) := by
  have hle : 1 ≤ l.rest.length := by simp [hrest]
  have hone := l.offset_add_lt hle
  have hsize := offset_lt_size (l := l) (by simp [hrest])
  have hadvance : l.advance = .ok (some b, l.moved 1 hone) := by
    rw [advance, peek_eq_ok, Checked.ok_bind, hrest]
    dsimp only [List.head?_cons]
    rw [consume_of_le hle]
    rfl
  have hbytes : (l.moved 1 hone).bytesOf ⟨l.offset, 1⟩ = .ok [b] := by
    rw [bytesOf_moved hone hle (Nat.le_of_lt hsize), hrest]
    rfl
  have hreading : (Lexeme.single b).readAt l.config l.offset
      = ⟨some ⟨Lexeme.singlePayload b, ⟨l.offset, 1⟩⟩, none, 1⟩ := rfl
  refine .of_reading hreading hone ?_
  rw [scanSingle, hadvance, Checked.ok_bind]
  dsimp only
  rw [spanBefore_moved, Checked.ok_bind, Lexeme.singlePayload]
  cases Symbol.ofByte? b with
  | some sign => rfl
  | none =>
      dsimp only
      rw [hbytes]
      rfl

/-! ### All of them -/

/-- A byte that begins a comment if it is a slash, and stands alone otherwise. The byte behind it
is looked at only when comments are wanted, and decides which comment it is. -/
theorem scanSlash_eq (hrest : l.rest = b :: tail) :
    l.ScansAs
      (do
        let next ← if l.config.comments && b == Byte.slash then l.peekAt 1 else pure none
        if next == some Byte.slash then l.scanLineComment
        else if next == some Byte.star then l.scanBlockComment
        else l.scanSingle)
      (match (if l.config.comments then Lexeme.comment? (b :: tail) else none) with
        | some comment => comment
        | none => .single b) := by
  have hone := l.offset_add_lt (n := 1) (by simp [hrest])
  by_cases hslash : (l.config.comments && b == Byte.slash) = true
  · obtain ⟨hcomments, hb⟩ := Bool.and_eq_true_iff.mp hslash
    obtain rfl := beq_iff_eq.mp hb
    rw [if_pos hslash, if_pos hcomments, peekAt_eq_ok hone, Checked.ok_bind, hrest]
    cases tail with
    | nil => exact scanSingle_eq hrest
    | cons c body =>
        rw [List.getElem?_cons_succ, List.getElem?_cons_zero]
        dsimp only
        by_cases hline : c = Byte.slash
        · subst hline
          exact scanLineComment_eq hrest
        · by_cases hblock : c = Byte.star
          · subst hblock
            exact scanBlockComment_eq hrest
          · have hnone : Lexeme.comment? (Byte.slash :: c :: body) = none := by
              simp [Lexeme.comment?, hline, hblock]
            rw [if_neg (by simpa using hline), if_neg (by simpa using hblock), hnone]
            exact scanSingle_eq hrest
  · have hnone : (if l.config.comments then Lexeme.comment? (b :: tail) else none) = none := by
      cases hcomments : l.config.comments with
      | false => rfl
      | true =>
          have hb : b ≠ Byte.slash := by simpa [hcomments] using hslash
          cases tail with
          | nil => rfl
          | cons c body => simp [Lexeme.comment?, hb]
    rw [if_neg hslash, hnone]
    exact scanSingle_eq hrest

/-- Where bytes are ahead the cursor scans the lexeme that they begin with. The tests on the first
byte are those of `Lexeme.ofBytes?`, and each leads to one of the scanners. -/
theorem scanAt_eq {lexeme : Lexeme} (hrest : l.rest = b :: tail)
    (h : Lexeme.ofBytes? l.config.comments l.rest = some lexeme) :
    l.ScansAs (l.scanAt b) lexeme := by
  rw [hrest, Lexeme.ofBytes?, Option.some.injEq] at h
  subst h
  rw [scanAt]
  by_cases hword : Byte.startsWord b = true
  · rw [if_pos hword, if_pos hword]
    exact scanWord_eq hrest hword
  · rw [if_neg hword, if_neg hword]
    by_cases hdigit : Byte.isDigit b = true
    · rw [if_pos hdigit, if_pos hdigit]
      exact scanNumber_eq hrest hdigit
    · rw [if_neg hdigit, if_neg hdigit]
      cases hquote : Quote.ofByte? b with
      | some quote =>
          rw [← Lexeme.quote_byte_of_ofByte? hquote] at hrest
          exact scanQuoted_eq hrest
      | none => exact scanSlash_eq hrest

/-- Recording a reading is noting its problem, and whether it has no token. The two lexers do this
in two steps and in one. -/
theorem record_eq (l : Lexer) (reading : Reading) :
    l.record reading = { l.noted reading.problem with finished := reading.token.isNone } := by
  rw [record]
  cases reading.problem <;> rfl

/-- Noting a problem does not finish a lexer. -/
theorem finished_noted (l : Lexer) (problem : Option Problem) :
    (l.noted problem).finished = l.finished := by
  cases problem <;> rfl

/-- Scanning byte by byte is scanning. Since `Lexer.next` always has an answer, none of the
checked steps faults: no offset overflows, no difference is negative, no slice leaves the source,
and no count of open comments grows too large. -/
theorem nextBytewise_eq (l : Lexer) : l.nextBytewise = l.next := by
  cases hfinished : l.finished with
  | true => rw [next_of_finished hfinished, nextBytewise, if_pos hfinished]
  | false =>
      have hskip : l.walk (fun _ b => .ok (Byte.isBlank b, ())) () = .ok ((), l.skipBlanks) :=
        walk_run rfl _
      rw [nextBytewise, hfinished, if_neg Bool.false_ne_true, hskip, Checked.ok_bind]
      dsimp only
      rw [peek_eq_ok, Checked.ok_bind]
      cases hlexeme : l.lexeme? with
      | none =>
          rw [next_of_none hfinished hlexeme, Lexeme.ofBytes?_eq_none_iff.mp hlexeme]
          rfl
      | some lexeme =>
          cases hrest : l.skipBlanks.rest with
          | nil =>
              rw [lexeme?, hrest] at hlexeme
              cases hlexeme
          | cons b tail =>
              obtain ⟨hadvance, hscan⟩ := scanAt_eq hrest hlexeme
              replace hscan : l.skipBlanks.scanAt b
                  = .ok ((lexeme.readAt l.config l.skipBlanks.offset).token,
                    (l.skipBlanks.moved _ hadvance).noted
                      (lexeme.readAt l.config l.skipBlanks.offset).problem) := hscan
              have hopen := (finished_noted (l.skipBlanks.moved _ hadvance)
                (lexeme.readAt l.config l.skipBlanks.offset).problem).trans hfinished
              rw [next_of_some hfinished hlexeme, record_eq]
              dsimp only [List.head?_cons]
              rw [hscan, Checked.ok_bind]
              -- Only a token keeps the lexer from being finished.
              cases (lexeme.readAt l.config l.skipBlanks.offset).token with
              | none => rfl
              | some t =>
                  refine congrArg (fun m => (.ok (some t, m) : Checked (Option Token × Lexer))) ?_
                  exact ext rfl rfl rfl hopen rfl

end Lexer

end Lexis
