import Lexis.Proofs.Bytewise.Scanner
import Lexis.Proofs.LexicalGrammar

/-!
# `Lexis.Proofs.Bytewise.Comments`: comments by checked steps

None of the steps faults that scan a comment. Within block comments the cursor counts how many
are open, and it has moved over more bytes than that. The theorems:

* `Lexer.scanLineComment_eq`, `Lexer.scanBlockComment_eq`: what comments are scanned as.
* `Lexer.endsComment_walkComment`: the cursor ends a block comment where `commentEnd` does.
-/

set_option autoImplicit false

namespace Lexis

namespace Lexer

variable {l : Lexer} {n : Nat} {b : UInt8} {tail : List UInt8}

/-! ### Line comments -/

/-- Behind the two bytes that open a comment there is room to look one byte further. The source
ends as many bytes behind the opener as its body has. -/
theorem exists_opened {a : UInt8} {body : List UInt8} (hrest : l.rest = a :: b :: body) :
    ∃ htwo : l.offset + 2 < addressLimit, (l.moved 2 htwo).rest = body ∧
      (l.moved 2 htwo).offset + 1 < addressLimit ∧
      l.offset + 2 + body.length = l.source.size := by
  have hlength : l.rest.length = body.length + 2 := by
    rw [hrest, List.length_cons, List.length_cons]
  have hsize := l.length_rest
  have hstop : l.offset + 2 + body.length = l.source.size := by omega
  have htwo := l.offset_add_lt (n := 2) (by omega)
  have hwithin := moved_within (by omega) (by omega) htwo
  refine ⟨htwo, ?_, offset_succ_lt hwithin, hstop⟩
  rw [rest_moved, hrest]
  rfl

/-- The mark of a doc comment is moved over, if there is one. It is one byte, which is written as
the number of a truth value here. -/
theorem exists_marked {body : List UInt8} {isDoc : Bool} {htwo : l.offset + 2 < addressLimit}
    (hinner : (l.moved 2 htwo).rest = body) (hdoc : isDoc.toNat ≤ body.length) :
    ∃ hmark : l.offset + (2 + isDoc.toNat) < addressLimit,
      (l.moved 2 htwo).consume isDoc.toNat = .ok (l.moved (2 + isDoc.toNat) hmark) ∧
      (l.moved (2 + isDoc.toNat) hmark).rest = body.drop isDoc.toNat := by
  have hle : isDoc.toNat ≤ (l.moved 2 htwo).rest.length := hinner ▸ hdoc
  have hmark := (l.moved 2 htwo).offset_add_lt hle
  rw [offset_moved, Nat.add_assoc] at hmark
  refine ⟨hmark, ?_, ?_⟩
  · rw [consume_of_le hle, moved_moved]
  · rw [rest_moved, ← List.drop_drop, ← rest_moved htwo, hinner]

/-- How many bytes a line comment takes: two slashes, a third one for a doc comment, and the
content. -/
theorem width_lineComment (isDoc : Bool) (content : List UInt8) :
    (Lexeme.lineComment isDoc content).width = 2 + isDoc.toNat + content.length := by
  rw [Lexeme.width, Lexeme.spelling_lineComment]
  cases isDoc <;> simp [Lexeme.docSlash] <;> omega

/-- A line comment is scanned as the lexeme that its two slashes begin. The carriage return in
front of the line break is moved over, and left out of the content only. -/
theorem scanLineComment_eq {body : List UInt8}
    (hrest : l.rest = Byte.slash :: Byte.slash :: body) :
    l.ScansAs l.scanLineComment (Lexeme.lineCommentFrom body) := by
  obtain ⟨htwo, hinner, hnext, hstop⟩ := exists_opened hrest
  have hmarks : (body.head? == some Byte.slash && body[1]? != some Byte.slash)
      = Lexeme.marksDocLine body := by
    rw [List.head?_eq_getElem?, Lexeme.marksDocLine]
  have hdoc : (Lexeme.marksDocLine body).toNat ≤ body.length := toNat_le_length (by rintro rfl; rfl)
  rw [Lexeme.lineCommentFrom_eq]
  generalize Lexeme.marksDocLine body = isDoc at hmarks hdoc ⊢
  obtain ⟨hmark, hconsume, hbody⟩ := exists_marked hinner hdoc
  generalize hcontent : (body.drop isDoc.toNat).takeWhile (· != Byte.lineFeed) = content
  have hprefix : content <+: body.drop isDoc.toNat := hcontent ▸ List.takeWhile_prefix _
  have hlength := hprefix.length_le
  rw [List.length_drop] at hlength
  have hn : (l.moved (2 + isDoc.toNat) hmark).offset + content.length < addressLimit :=
    (l.moved (2 + isDoc.toNat) hmark).offset_add_lt (hbody ▸ hprefix.length_le)
  have hle : (l.moved (2 + isDoc.toNat) hmark).offset
      ≤ (l.moved (2 + isDoc.toNat) hmark).source.size := by
    show l.offset + (2 + isDoc.toNat) ≤ l.source.size
    omega
  have hwidth : l.offset + (Lexeme.lineComment isDoc content).width < addressLimit := by
    rw [width_lineComment, ← Nat.add_assoc]
    exact hn
  have hcollect := collectRun_eq_ok (hbody ▸ hcontent) hn hle
  rw [moved_moved, moved_congr (width_lineComment isDoc content).symm] at hcollect
  refine ⟨hwidth, ?_⟩
  rw [scanLineComment, consume_eq_ok htwo, Checked.ok_bind, peek_eq_ok, Checked.ok_bind,
    peekAt_eq_ok hnext, Checked.ok_bind, hinner, hmarks]
  dsimp only
  rw [hconsume, Checked.ok_bind, hcollect, Checked.ok_bind]
  dsimp only
  rw [spanFrom_moved]
  rfl

/-! ### Block comments -/

section WalkComment

variable {depth contentStop : Nat}

/-- At the end of the source there is no step, whatever is still open. -/
theorem commentStep_of_nil (hrest : l.rest = []) (hnext : l.offset + 1 < addressLimit) :
    l.commentStep depth contentStop = .ok none := by
  rw [commentStep, peek_eq_ok, Checked.ok_bind, peekAt_eq_ok hnext, Checked.ok_bind, hrest]
  rfl

/-- At an opener one more comment is open. Counting it may fault, so there must be room for one
more. -/
theorem commentStep_of_opener (hrest : l.rest = Byte.slash :: Byte.star :: tail)
    (hdepth : depth + 1 < addressLimit) :
    ∃ htwo : l.offset + 2 < addressLimit, l.commentStep depth contentStop
      = .ok (some (depth + 1, contentStop, l.moved 2 htwo)) := by
  have hle : 2 ≤ l.rest.length := by simp [hrest]
  have hnext := l.offset_add_lt (Nat.le_of_succ_le hle)
  refine ⟨l.offset_add_lt hle, ?_⟩
  rw [commentStep, peek_eq_ok, Checked.ok_bind, peekAt_eq_ok hnext, Checked.ok_bind, hrest]
  dsimp only [List.head?_cons]
  rw [if_pos (by simp), Fault.offsetAfter_eq_ok hdepth, Checked.ok_bind, consume_of_le hle]
  rfl

/-- At a closer one comment less is open, and the content ends in front of it if it was the last.
Some comment must be open for the count to go down. -/
theorem commentStep_of_closer (hrest : l.rest = Byte.star :: Byte.slash :: tail)
    (hdepth : 1 ≤ depth) :
    ∃ htwo : l.offset + 2 < addressLimit, l.commentStep depth contentStop
      = .ok (some (depth - 1, l.offset, l.moved 2 htwo)) := by
  have hle : 2 ≤ l.rest.length := by simp [hrest]
  have hnext := l.offset_add_lt (Nat.le_of_succ_le hle)
  refine ⟨l.offset_add_lt hle, ?_⟩
  rw [commentStep, peek_eq_ok, Checked.ok_bind, peekAt_eq_ok hnext, Checked.ok_bind, hrest]
  dsimp only [List.head?_cons]
  rw [if_neg (by simp [Byte.star, Byte.slash]), if_pos (by simp),
    Fault.offsetBefore_eq_ok hdepth, Checked.ok_bind, consume_of_le hle]
  rfl

/-- Anywhere else the cursor moves over one byte, and nothing changes. A slash or a star that is
the last byte is such a byte. -/
theorem commentStep_of_other (hrest : l.rest = b :: tail)
    (hb : startsDelimiter (b :: tail) = false) :
    ∃ hone : l.offset + 1 < addressLimit, l.commentStep depth contentStop
      = .ok (some (depth, contentStop, l.moved 1 hone)) := by
  have hle : 1 ≤ l.rest.length := by simp [hrest]
  have hone := l.offset_add_lt hle
  have hdelimiters : (b == Byte.slash && tail.head? == some Byte.star) = false ∧
      (b == Byte.star && tail.head? == some Byte.slash) = false := by
    cases tail with
    | nil => simp
    | cons c tail => simpa [startsDelimiter] using hb
  refine ⟨hone, ?_⟩
  rw [commentStep, peek_eq_ok, Checked.ok_bind, peekAt_eq_ok hone, Checked.ok_bind, hrest]
  dsimp only [List.head?_cons]
  rw [List.getElem?_cons_succ, ← List.head?_eq_getElem?, hdelimiters.1, hdelimiters.2,
    if_neg Bool.false_ne_true, if_neg Bool.false_ne_true, consume_of_le hle]
  rfl

/-- The walk ends where no comment is open, and moves no further. -/
theorem walkComment_zero : l.walkComment 0 contentStop = .ok (0, contentStop, l) := by
  rw [walkComment, if_pos rfl]

/-- The walk ends with the source, and says how many comments are open there. -/
theorem walkComment_of_none (hdepth : depth ≠ 0)
    (hstep : l.commentStep depth contentStop = .ok none) :
    l.walkComment depth contentStop = .ok (depth, contentStop, l) := by
  rw [walkComment, if_neg hdepth]
  split <;> simp_all

/-- The walk goes on from where a step leads, with as many comments open as the step leaves, while
any is. -/
theorem walkComment_of_some {later laterStop : Nat} {m : Lexer} (hdepth : depth ≠ 0)
    (hstep : l.commentStep depth contentStop = .ok (some (later, laterStop, m))) :
    l.walkComment depth contentStop = m.walkComment later laterStop := by
  rw [walkComment, if_neg hdepth]
  split <;> simp_all

/-- The cursor ends behind a comment that ends as `found` says: how many bytes come before the
end, counted from `seen` on, and how many comments are open there. -/
def EndsComment (l : Lexer) (seen : Nat) (walked : Checked (Nat × Nat × Lexer))
    (found : Nat × Nat) : Prop :=
  ∃ (contentStop n : Nat) (hn : l.offset + n < addressLimit),
    walked = .ok (found.2, contentStop, l.moved n hn) ∧
    seen + n = found.1 + (if found.2 = 0 then 2 else 0) ∧
    (found.2 = 0 → seen + contentStop = l.offset + found.1)

/-- The end of a comment can be stated from a place further on: as many bytes as the cursor is
ahead, so much higher starts the count. -/
theorem EndsComment.of_moved {seen : Nat} {walked : Checked (Nat × Nat × Lexer)}
    {found : Nat × Nat} {hn : l.offset + n < addressLimit}
    (h : (l.moved n hn).EndsComment (seen + n) walked found) : l.EndsComment seen walked found := by
  obtain ⟨stop, m, hm, hwalked, hend, hstop⟩ := h
  rw [offset_moved, Nat.add_assoc] at hm
  refine ⟨stop, n + m, hm, ?_, ?_, ?_⟩
  · rw [hwalked, moved_moved]
  · rw [← hend, Nat.add_assoc]
  · intro hclosed
    have hcount := hstop hclosed
    rw [offset_moved] at hcount
    omega

/-- The cursor finds the end of a comment where it is. There are never more comments open than
bytes were moved over, so that their count stays small: `hdepth` is kept up from step to step, and
with it no count can overflow. The induction follows `commentEnd`, case by case. -/
theorem endsComment_walkComment (depth seen contentStop : Nat) {bytes : List UInt8}
    (hrest : l.rest = bytes) (hle : l.offset ≤ l.source.size) (hdepth : depth + 1 ≤ l.offset) :
    l.EndsComment seen (l.walkComment (depth + 1) contentStop)
      (Lexeme.commentEnd depth seen bytes) := by
  -- Where no byte is ahead the comments stay open.
  have hend {l : Lexer} (depth seen contentStop : Nat) (hrest : l.rest = [])
      (hle : l.offset ≤ l.source.size) :
      l.EndsComment seen (l.walkComment (depth + 1) contentStop) (seen, depth + 1) := by
    refine ⟨contentStop, 0, l.offset_lt, ?_, rfl, nofun⟩
    rw [walkComment_of_none (Nat.succ_ne_zero depth)
      (commentStep_of_nil hrest (offset_succ_lt hle)), moved_zero]
  fun_induction Lexeme.commentEnd depth seen bytes generalizing l contentStop with
  | case1 depth seen => exact hend depth seen contentStop hrest hle
  | case2 depth seen b =>
      obtain ⟨hone, hstep⟩ := commentStep_of_other hrest rfl
      rw [walkComment_of_some (Nat.succ_ne_zero depth) hstep]
      refine .of_moved
        (hend depth (seen + 1) contentStop ?_ (moved_within (by simp [hrest]) hle hone))
      rw [rest_moved, hrest]
      rfl
  | case3 depth seen a b rest hab ih =>
      obtain ⟨rfl, rfl⟩ : a = Byte.slash ∧ b = Byte.star := by simpa using hab
      have hmore : depth + 1 + 1 < addressLimit := by
        have hroom := offset_succ_lt hle
        omega
      obtain ⟨htwo, hstep⟩ := commentStep_of_opener hrest hmore
      rw [walkComment_of_some (Nat.succ_ne_zero depth) hstep]
      refine .of_moved (ih contentStop ?_ (moved_within (by simp [hrest]) hle htwo) ?_)
      · rw [rest_moved, hrest]
        rfl
      · rw [offset_moved]
        omega
  | case4 seen a b rest hab hclose =>
      obtain ⟨rfl, rfl⟩ : a = Byte.star ∧ b = Byte.slash := by simpa using hclose
      obtain ⟨htwo, hstep⟩ := commentStep_of_closer hrest (Nat.le_refl 1)
      rw [walkComment_of_some Nat.one_ne_zero hstep, walkComment_zero]
      exact ⟨l.offset, 2, htwo, rfl, rfl, fun _ => Nat.add_comm _ _⟩
  | case5 seen a b rest hab hclose depth ih =>
      obtain ⟨rfl, rfl⟩ : a = Byte.star ∧ b = Byte.slash := by simpa using hclose
      obtain ⟨htwo, hstep⟩ := commentStep_of_closer hrest (Nat.succ_le_succ (Nat.zero_le _))
      rw [walkComment_of_some (Nat.succ_ne_zero _) hstep]
      refine .of_moved (ih l.offset ?_ (moved_within (by simp [hrest]) hle htwo) ?_)
      · rw [rest_moved, hrest]
        rfl
      · rw [offset_moved]
        omega
  | case6 depth seen a b rest hab hclose ih =>
      have hother : startsDelimiter (a :: b :: rest) = false := by
        rw [startsDelimiter, Bool.or_eq_false_iff]
        exact ⟨Bool.eq_false_iff.mpr hab, Bool.eq_false_iff.mpr hclose⟩
      obtain ⟨hone, hstep⟩ := commentStep_of_other hrest hother
      rw [walkComment_of_some (Nat.succ_ne_zero depth) hstep]
      refine .of_moved (ih contentStop ?_ (moved_within (by simp [hrest]) hle hone) ?_)
      · rw [rest_moved, hrest]
        rfl
      · rw [offset_moved]
        omega

end WalkComment

/-- How many bytes a block comment takes: the opener, a second star for a doc comment, the
content, and the closer if there is one. -/
theorem width_blockComment (isDoc : Bool) (content : List UInt8) (openDepth : Nat) :
    (Lexeme.blockComment isDoc content openDepth).width
      = 2 + isDoc.toNat + (content.length + if openDepth = 0 then 2 else 0) := by
  cases openDepth with
  | zero =>
      rw [Lexeme.width, Lexeme.spelling_closedComment]
      cases isDoc <;> simp [Lexeme.docStar] <;> omega
  | succ depth =>
      rw [Lexeme.width, Lexeme.spelling_openComment]
      cases isDoc <;> simp [Lexeme.docStar] <;> omega

/-- The content of a comment ends within the bytes, and so does its closer, if it has one. -/
theorem commentEnd_le (text : List UInt8) :
    (Lexeme.commentEnd 0 0 text).1
      + (if (Lexeme.commentEnd 0 0 text).2 = 0 then 2 else 0) ≤ text.length := by
  obtain ⟨-, hclosed, hopen⟩ := Lexeme.commentEnd_bounds 0 0 text
  split
  · next h =>
      have hlength := congrArg List.length (hclosed h)
      rw [Nat.sub_zero, List.length_drop, List.length_cons, List.length_cons] at hlength
      omega
  · next h => exact Nat.le_of_eq (hopen h)

/-- The walk through a comment moves over its content, and over the closer if there is one. The
content is there to be cut out. -/
theorem exists_walkComment {text : List UInt8} (hrest : l.rest = text)
    (hle : l.offset ≤ l.source.size) (hpos : 0 + 1 ≤ l.offset) :
    ∃ (contentStop n : Nat) (hn : l.offset + n < addressLimit),
      l.walkComment 1 l.offset
        = .ok ((Lexeme.commentEnd 0 0 text).2, contentStop, l.moved n hn) ∧
      n = (text.take (Lexeme.commentEnd 0 0 text).1).length
        + (if (Lexeme.commentEnd 0 0 text).2 = 0 then 2 else 0) ∧
      ∀ m : Lexer, m.source = l.source → m.bytesBetween l.offset
        (if (Lexeme.commentEnd 0 0 text).2 = 0 then contentStop else l.offset + n)
          = .ok (text.take (Lexeme.commentEnd 0 0 text).1) := by
  obtain ⟨contentStop, n, hn, hwalk, hend, hclosed⟩ :=
    endsComment_walkComment 0 0 l.offset hrest hle hpos
  have hbound := commentEnd_le text
  generalize (Lexeme.commentEnd 0 0 text).1 = length at hend hclosed hbound ⊢
  generalize (Lexeme.commentEnd 0 0 text).2 = openDepth at hwalk hend hclosed hbound ⊢
  have hlength : length ≤ text.length := by omega
  rw [Nat.zero_add] at hend
  refine ⟨contentStop, n, hn, hwalk, ?_, ?_⟩
  · rw [List.length_take_of_le hlength, hend]
  · intro m hsource
    have hstop : (if openDepth = 0 then contentStop else l.offset + n) = l.offset + length := by
      split
      · next hdone => exact (Nat.zero_add _).symm.trans (hclosed hdone)
      · next hopen => rw [hend, if_neg hopen, Nat.add_zero]
    rw [hstop, bytesBetween_ahead hsource (hrest ▸ hlength) hle, hrest]

/-- What a block comment comes to, written as one term. Its problem is there if it is left open,
and everything else does not depend on that. -/
theorem readAt_blockComment (config : Config) (start : Nat) (isDoc : Bool)
    (content : List UInt8) (openDepth : Nat) :
    (Lexeme.blockComment isDoc content openDepth).readAt config start
      = ⟨some ⟨.comment ⟨.block, isDoc, Text.decode content⟩,
            ⟨start, (Lexeme.blockComment isDoc content openDepth).width⟩⟩,
          if openDepth = 0 then none
          else some ⟨.unterminatedComment openDepth,
            ⟨start, (Lexeme.blockComment isDoc content openDepth).width⟩⟩,
          (Lexeme.blockComment isDoc content openDepth).width⟩ := by
  cases openDepth with
  | zero => rfl
  | succ depth => rfl

/-- A block comment is scanned as the lexeme that its slash and star begin, closed or not. The
content is cut out between two offsets that the walk has found. -/
theorem scanBlockComment_eq {body : List UInt8}
    (hrest : l.rest = Byte.slash :: Byte.star :: body) :
    l.ScansAs l.scanBlockComment (Lexeme.blockCommentFrom body) := by
  obtain ⟨htwo, hinner, hnext, hstop⟩ := exists_opened hrest
  have hmarks : (body.head? == some Byte.star && body[1]? != some Byte.star
      && body[1]? != some Byte.slash) = Lexeme.marksDocBlock body := by
    rw [List.head?_eq_getElem?, Lexeme.marksDocBlock]
  have hdoc : (Lexeme.marksDocBlock body).toNat ≤ body.length :=
    toNat_le_length (by rintro rfl; rfl)
  rw [Lexeme.blockCommentFrom_eq]
  generalize Lexeme.marksDocBlock body = isDoc at hmarks hdoc ⊢
  obtain ⟨hmark, hconsume, hbody⟩ := exists_marked hinner hdoc
  have hle : (l.moved (2 + isDoc.toNat) hmark).offset
      ≤ (l.moved (2 + isDoc.toNat) hmark).source.size := by
    show l.offset + (2 + isDoc.toNat) ≤ l.source.size
    omega
  have hpos : 0 + 1 ≤ (l.moved (2 + isDoc.toNat) hmark).offset := by
    show 1 ≤ l.offset + (2 + isDoc.toNat)
    omega
  obtain ⟨contentStop, n, hn, hwalk, hlength, hbytes⟩ := exists_walkComment hbody hle hpos
  generalize body.drop isDoc.toNat = text at hwalk hlength hbytes ⊢
  generalize text.take (Lexeme.commentEnd 0 0 text).1 = content at hlength hbytes ⊢
  generalize (Lexeme.commentEnd 0 0 text).2 = openDepth at hwalk hlength hbytes ⊢
  have hcount : 2 + isDoc.toNat + n = (Lexeme.blockComment isDoc content openDepth).width := by
    rw [width_blockComment, hlength]
  rw [moved_moved, moved_congr hcount] at hwalk
  have hwidth : l.offset + (Lexeme.blockComment isDoc content openDepth).width < addressLimit := by
    rw [← hcount, ← Nat.add_assoc]
    exact hn
  replace hbytes := hbytes (l.moved _ hwidth) rfl
  refine .of_reading (readAt_blockComment _ _ _ _ _) hwidth ?_
  rw [scanBlockComment, consume_eq_ok htwo, Checked.ok_bind, peek_eq_ok, Checked.ok_bind,
    peekAt_eq_ok hnext, Checked.ok_bind, hinner, hmarks]
  dsimp only
  rw [hconsume, Checked.ok_bind, hwalk, Checked.ok_bind]
  dsimp only
  rw [spanFrom_moved, Checked.ok_bind]
  by_cases hdone : openDepth = 0
  · rw [if_pos hdone] at hbytes
    rw [if_pos hdone, if_pos hdone, hbytes]
    rfl
  · rw [if_neg hdone, offset_moved, Nat.add_assoc, hcount] at hbytes
    rw [if_neg hdone, if_neg hdone, offset_moved, offset_moved, hbytes]
    rfl

end Lexer

end Lexis
