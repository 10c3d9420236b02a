import Lexis.Lexeme

/-!
# `Lexis.Proofs.Nesting`: block comments inside of block comments

`Lexeme.commentEnd` looks for the end of a block comment with a count of the comments that
are open. `Nests` says by rules which bytes lead from one count to another, and `marks` cuts
bytes into openers, closers and single bytes, so that the counts can be read off. The
theorems:

* `Lexeme.commentEnd_of_nests_zero`, `Lexeme.commentEnd_of_nests_succ`: the scan finds the
  end that the rules give.
* `exists_nests`: by the rules a block comment either closes or is open at the end.
* `nests_iff_counts`: the rules keep count of openers and closers.
-/

set_option autoImplicit false

namespace Lexis

/-! ### The rules -/

/-- Whether an opener or a closer of block comments stands at the front. -/
def startsDelimiter : List UInt8 → Bool
  | a :: b :: _ => a == Byte.slash && b == Byte.star || a == Byte.star && b == Byte.slash
  | _ => false

/-- Reading the bytes inside of `before` open comments, openers and closers from left to right,
leaves `after` comments open. Nothing is read once no comment is open. Since `other` applies only
where no delimiter starts, there is one way to read given bytes. -/
inductive Nests : (before after : Nat) → List UInt8 → Prop where
  | done {depth : Nat} : Nests depth depth []
  | opener {depth after : Nat} {rest : List UInt8} (h : Nests (depth + 2) after rest) :
      Nests (depth + 1) after (Byte.slash :: Byte.star :: rest)
  | closer {depth after : Nat} {rest : List UInt8} (h : Nests depth after rest) :
      Nests (depth + 1) after (Byte.star :: Byte.slash :: rest)
  | other {depth after : Nat} {b : UInt8} {rest : List UInt8}
      (hb : startsDelimiter (b :: rest) = false) (h : Nests (depth + 1) after rest) :
      Nests (depth + 1) after (b :: rest)

/-- No byte is read once no comment is open. So a comment is over with the closer that leaves none
open. -/
theorem Nests.of_zero {after : Nat} {bytes : List UInt8} (h : Nests 0 after bytes) :
    bytes = [] ∧ after = 0 := by
  cases h
  exact ⟨rfl, rfl⟩

/-- In front of a text that does not start with a slash, a star is the beginning of no
closer, and it does not change how the text nests. -/
theorem nests_star_cons_iff {before after : Nat} {text : List UInt8}
    (h : text.head? ≠ some Byte.slash) :
    Nests (before + 1) after (Byte.star :: text) ↔ Nests (before + 1) after text := by
  constructor
  · intro hnest
    cases hnest with
    | closer _ => simp at h
    | other _ hrest => exact hrest
  · intro hnest
    refine .other ?_ hnest
    cases text with
    | nil => rfl
    | cons c text =>
        have hc : c ≠ Byte.slash := by simpa using h
        have hstar : Byte.star ≠ Byte.slash := by decide
        simp [startsDelimiter, hc, hstar]

namespace Lexeme

/-! The equations of `commentEnd`, one for each rule of `Nests`. -/

/-- An opener leads one level further in, two bytes on. -/
theorem commentEnd_opener (depth seen : Nat) (rest : List UInt8) :
    commentEnd depth seen (Byte.slash :: Byte.star :: rest)
      = commentEnd (depth + 1) (seen + 2) rest := by
  rw [commentEnd.eq_def]
  exact if_pos (by decide)

/-- The closer of the outermost comment ends the scan in front of it, and the length is that of
the content without it. -/
theorem commentEnd_closer_zero (seen : Nat) (rest : List UInt8) :
    commentEnd 0 seen (Byte.star :: Byte.slash :: rest) = (seen, 0) := by
  rw [commentEnd, if_neg (by decide), if_pos (by decide)]

/-- The closer of an inner comment leads one level out, two bytes on. -/
theorem commentEnd_closer_succ (depth seen : Nat) (rest : List UInt8) :
    commentEnd (depth + 1) seen (Byte.star :: Byte.slash :: rest)
      = commentEnd depth (seen + 2) rest := by
  rw [commentEnd, if_neg (by decide), if_pos (by decide)]

/-- Any other byte is passed over. -/
theorem commentEnd_other (depth seen : Nat) {b : UInt8} {rest : List UInt8}
    (h : startsDelimiter (b :: rest) = false) :
    commentEnd depth seen (b :: rest) = commentEnd depth (seen + 1) rest := by
  cases rest with
  | nil => rfl
  | cons c rest =>
      simp only [startsDelimiter, Bool.or_eq_false_iff] at h
      rw [commentEnd.eq_def]
      simp [h.1, h.2]

/-- Bytes that close all open comments hold a closer, and the scan of any longer bytes ends in
front of that closer. That there is a closer is part of the induction: it settles, for the byte in
front, whether a delimiter starts there. -/
theorem commentEnd_of_nests_zero {depth : Nat} {text : List UInt8}
    (h : Nests (depth + 1) 0 text) (seen : Nat) (rest : List UInt8) :
    2 ≤ text.length ∧ commentEnd depth seen (text ++ rest) = (seen + text.length - 2, 0) := by
  generalize hbefore : depth + 1 = before at h
  generalize hafter : (0 : Nat) = after at h
  induction h generalizing depth seen with
  | done => omega
  | @opener outer after inner _ ih =>
      -- The scan goes on one level further in, two bytes on.
      obtain rfl : depth = outer := by omega
      obtain ⟨hlen, hend⟩ := ih (seen + 2) rfl hafter
      refine ⟨by simp, ?_⟩
      rw [List.cons_append, List.cons_append, commentEnd_opener, hend]
      simp only [List.length_cons, Prod.mk.injEq, and_true]
      omega
  | @closer outer after inner hinner ih =>
      obtain rfl : depth = outer := by omega
      refine ⟨by simp, ?_⟩
      cases depth with
      | zero =>
          -- The outermost comment is closed, and nothing is read behind it.
          obtain ⟨rfl, rfl⟩ := hinner.of_zero
          exact commentEnd_closer_zero seen rest
      | succ depth =>
          obtain ⟨hlen, hend⟩ := ih (seen + 2) rfl hafter
          rw [List.cons_append, List.cons_append, commentEnd_closer_succ, hend]
          simp only [List.length_cons, Prod.mk.injEq, and_true]
          omega
  | @other outer after b inner hb _ ih =>
      obtain rfl : depth = outer := by omega
      obtain ⟨hlen, hend⟩ := ih (seen + 1) rfl hafter
      -- At least a closer follows, so whether a delimiter starts here is settled within `inner`.
      have hb' : startsDelimiter (b :: (inner ++ rest)) = false := by
        cases inner with
        | nil => simp at hlen
        | cons c inner => exact hb
      refine ⟨by simp only [List.length_cons]; omega, ?_⟩
      rw [List.cons_append, commentEnd_other _ _ hb', hend]
      simp only [List.length_cons, Prod.mk.injEq, and_true]
      omega

/-- Bytes that leave comments open are passed over to their end, and as many are open there as the
rules say. -/
theorem commentEnd_of_nests_succ {depth after : Nat} {text : List UInt8}
    (h : Nests (depth + 1) (after + 1) text) (seen : Nat) :
    commentEnd depth seen text = (seen + text.length, after + 1) := by
  generalize hbefore : depth + 1 = before at h
  generalize hafter : after + 1 = left at h
  induction h generalizing depth seen with
  | done =>
      subst hbefore
      rw [commentEnd.eq_def]
      simp
  | @opener outer _ inner _ ih =>
      obtain rfl : depth = outer := by omega
      rw [commentEnd_opener, ih (seen + 2) rfl hafter]
      simp only [List.length_cons, Prod.mk.injEq, and_true]
      omega
  | @closer outer _ inner hinner ih =>
      obtain rfl : depth = outer := by omega
      cases depth with
      | zero =>
          -- The last comment would be closed here, and none be left open.
          obtain ⟨-, rfl⟩ := hinner.of_zero
          omega
      | succ depth =>
          rw [commentEnd_closer_succ, ih (seen + 2) rfl hafter]
          simp only [List.length_cons, Prod.mk.injEq, and_true]
          omega
  | @other outer _ b inner hb _ ih =>
      obtain rfl : depth = outer := by omega
      rw [commentEnd_other _ _ hb, ih (seen + 1) rfl hafter]
      simp only [List.length_cons, Prod.mk.injEq, and_true]
      omega

end Lexeme

/-- Bytes that close all open comments end with a closer, that of the outermost comment. -/
theorem Nests.exists_closer {depth : Nat} {text : List UInt8} (h : Nests (depth + 1) 0 text) :
    ∃ content, text = content ++ [Byte.star, Byte.slash] := by
  generalize hbefore : depth + 1 = before at h
  generalize hafter : (0 : Nat) = after at h
  induction h generalizing depth with
  | done => omega
  | opener _ ih =>
      obtain ⟨content, rfl⟩ := ih rfl hafter
      exact ⟨Byte.slash :: Byte.star :: content, rfl⟩
  | @closer outer _ _ hinner ih =>
      cases outer with
      | zero =>
          obtain ⟨rfl, -⟩ := hinner.of_zero
          exact ⟨[], rfl⟩
      | succ outer =>
          obtain ⟨content, rfl⟩ := ih rfl hafter
          exact ⟨Byte.star :: Byte.slash :: content, rfl⟩
  | @other _ _ b _ _ _ ih =>
      obtain ⟨content, rfl⟩ := ih rfl hafter
      exact ⟨b :: content, rfl⟩

/-- A delimiter at the front is an opener or a closer. Both take two bytes, so that the delimiters
in a text do not overlap when they are read from the front. -/
theorem exists_of_startsDelimiter {bytes : List UInt8} (h : startsDelimiter bytes = true) :
    ∃ rest, bytes = Byte.slash :: Byte.star :: rest ∨ bytes = Byte.star :: Byte.slash :: rest := by
  match bytes with
  | [] => cases h
  | [_] => cases h
  | a :: b :: rest =>
      refine ⟨rest, ?_⟩
      simpa [startsDelimiter] using h

/-- Inside of open comments, either the bytes begin with some that close them all, or all of the
bytes leave comments open. The scan has no third way to end. -/
theorem exists_nests (depth : Nat) (bytes : List UInt8) :
    (∃ text rest, bytes = text ++ rest ∧ Nests (depth + 1) 0 text)
      ∨ ∃ after, Nests (depth + 1) (after + 1) bytes := by
  -- A delimiter takes two bytes, so the induction is on the length and not on the list.
  induction hn : bytes.length using Nat.strongRecOn generalizing depth bytes with
  | ind n ih =>
      subst hn
      cases bytes with
      | nil => exact .inr ⟨depth, .done⟩
      | cons b rest =>
          cases hdelim : startsDelimiter (b :: rest) with
          | false =>
              rcases ih rest.length (by simp) depth rest rfl with ⟨text, more, rfl, h⟩ | ⟨after, h⟩
              · refine .inl ⟨b :: text, more, rfl, .other ?_ h⟩
                -- Cutting off what follows the comment creates no delimiter.
                cases text with
                | nil => rfl
                | cons c text => exact hdelim
              · exact .inr ⟨after, .other hdelim h⟩
          | true =>
              obtain ⟨inner, hopen | hclose⟩ := exists_of_startsDelimiter hdelim
              · cases hopen
                have hlen : inner.length < (Byte.slash :: Byte.star :: inner).length := by
                  simp only [List.length_cons]
                  omega
                rcases ih inner.length hlen (depth + 1) inner rfl with
                  ⟨text, more, rfl, h⟩ | ⟨after, h⟩
                · exact .inl ⟨_ :: _ :: text, more, rfl, .opener h⟩
                · exact .inr ⟨after, .opener h⟩
              · cases hclose
                cases depth with
                | zero => exact .inl ⟨[Byte.star, Byte.slash], inner, rfl, .closer .done⟩
                | succ depth =>
                    have hlen : inner.length < (Byte.star :: Byte.slash :: inner).length := by
                      simp only [List.length_cons]
                      omega
                    rcases ih inner.length hlen depth inner rfl with
                      ⟨text, more, rfl, h⟩ | ⟨after, h⟩
                    · exact .inl ⟨_ :: _ :: text, more, rfl, .closer h⟩
                    · exact .inr ⟨after, .closer h⟩

/-! ### The counts -/

/-- What a byte of a block comment is the beginning of. -/
inductive Mark where
  | opener | closer | plain
  deriving DecidableEq, Repr

/-- The openers, closers and other bytes of `bytes`. They are taken from left to right, and
no byte is a part of two. -/
def marks : List UInt8 → List Mark
  | a :: b :: rest =>
    if a = Byte.slash ∧ b = Byte.star then .opener :: marks rest
    else if a = Byte.star ∧ b = Byte.slash then .closer :: marks rest
    else .plain :: marks (b :: rest)
  | [_] => [.plain]
  | [] => []

/-- An opener is marked, and its two bytes are passed over. The star of an opener is no part of a
closer. -/
theorem marks_opener (rest : List UInt8) :
    marks (Byte.slash :: Byte.star :: rest) = .opener :: marks rest := by
  rw [marks, if_pos ⟨rfl, rfl⟩]

/-- A closer is marked, and its two bytes are passed over. The slash of a closer is no part of an
opener. -/
theorem marks_closer (rest : List UInt8) :
    marks (Byte.star :: Byte.slash :: rest) = .closer :: marks rest := by
  rw [marks, if_neg (by decide), if_pos ⟨rfl, rfl⟩]

/-- A byte at which no delimiter starts is marked as plain. -/
theorem marks_other {b : UInt8} {rest : List UInt8} (h : startsDelimiter (b :: rest) = false) :
    marks (b :: rest) = .plain :: marks rest := by
  cases rest with
  | nil => rfl
  | cons c rest =>
      simp only [startsDelimiter, Bool.or_eq_false_iff, Bool.and_eq_false_iff,
        beq_eq_false_iff_ne] at h
      rw [marks, if_neg (by grind), if_neg (by grind)]

/-- The count of open comments: it starts at `before`, goes up with each opener and down with each
closer, is `after` at the end and nowhere zero before the end. This says in numbers what `Nests`
says by rules. -/
structure Counts (before after : Nat) (found : List Mark) : Prop where
  atEnd : before + found.count .opener = after + found.count .closer
  notBefore : ∀ k < found.length,
    (found.take k).count .closer < before + (found.take k).count .opener

/-- Without marks the count stays where it started. -/
theorem counts_nil_iff {before after : Nat} : Counts before after [] ↔ before = after := by
  constructor
  · intro h
    simpa using h.atEnd
  · rintro rfl
    exact ⟨rfl, by simp⟩

/-- The count behind one more mark. -/
def Mark.count : Mark → Nat → Nat
  | opener, depth => depth + 1
  | closer, depth => depth - 1
  | plain, depth => depth

/-- A count can be taken up behind its first mark, if a comment is open there. -/
theorem counts_cons_iff {before after : Nat} {mark : Mark} {found : List Mark} :
    Counts before after (mark :: found) ↔ 0 < before ∧ Counts (mark.count before) after found := by
  constructor
  · intro h
    -- The count in front of all marks is `before`, and it is not the end yet.
    have hpos : 0 < before := by simpa using h.notBefore 0 (by simp)
    refine ⟨hpos, ?_, ?_⟩
    · have hend := h.atEnd
      cases mark <;> simp [Mark.count] at hend ⊢ <;> omega
    · intro k hk
      have hbefore := h.notBefore (k + 1) (by simpa using hk)
      cases mark <;> simp [Mark.count] at hbefore ⊢ <;> omega
  · rintro ⟨hpos, h⟩
    refine ⟨?_, ?_⟩
    · have hend := h.atEnd
      cases mark <;> simp [Mark.count] at hend ⊢ <;> omega
    · intro k hk
      cases k with
      | zero => simpa using hpos
      | succ k =>
          have hbefore := h.notBefore k (by simpa using hk)
          cases mark <;> simp [Mark.count] at hbefore ⊢ <;> omega

/-- The rules keep count of openers and closers. Forth it goes by induction on the rules, and back
on the number of bytes, where each mark asks for the rule of its kind. -/
theorem nests_iff_counts {before after : Nat} {bytes : List UInt8} :
    Nests before after bytes ↔ Counts before after (marks bytes) := by
  constructor
  · intro h
    induction h with
    | done => exact counts_nil_iff.mpr rfl
    | opener _ ih =>
        rw [marks_opener, counts_cons_iff]
        exact ⟨Nat.succ_pos _, ih⟩
    | closer _ ih =>
        rw [marks_closer, counts_cons_iff]
        exact ⟨Nat.succ_pos _, ih⟩
    | other hb _ ih =>
        rw [marks_other hb, counts_cons_iff]
        exact ⟨Nat.succ_pos _, ih⟩
  · intro h
    -- The marks are read off from the front, as far as the length of the bytes goes.
    induction hn : bytes.length using Nat.strongRecOn generalizing before bytes with
    | ind n ih =>
        subst hn
        cases bytes with
        | nil =>
            obtain rfl := counts_nil_iff.mp h
            exact .done
        | cons b rest =>
            cases hdelim : startsDelimiter (b :: rest) with
            | false =>
                rw [marks_other hdelim, counts_cons_iff] at h
                obtain ⟨depth, rfl⟩ := Nat.exists_eq_succ_of_ne_zero (Nat.ne_of_gt h.1)
                exact .other hdelim (ih _ (Nat.lt_succ_self _) h.2 rfl)
            | true =>
                obtain ⟨inner, hopen | hclose⟩ := exists_of_startsDelimiter hdelim
                · cases hopen
                  rw [marks_opener, counts_cons_iff] at h
                  obtain ⟨depth, rfl⟩ := Nat.exists_eq_succ_of_ne_zero (Nat.ne_of_gt h.1)
                  exact .opener (ih _ (by simp only [List.length_cons]; omega) h.2 rfl)
                · cases hclose
                  rw [marks_closer, counts_cons_iff] at h
                  obtain ⟨depth, rfl⟩ := Nat.exists_eq_succ_of_ne_zero (Nat.ne_of_gt h.1)
                  exact .closer (ih _ (by simp only [List.length_cons]; omega) h.2 rfl)

end Lexis
