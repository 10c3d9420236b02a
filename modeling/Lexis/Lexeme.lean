import Lexis.Byte
import Lexis.Token.Literal

/-!
# `Lexis.Lexeme`: what the front of the bytes spells

`Lexeme.ofBytes?` reads one lexeme off the front of bytes that do not start with a blank.
It looks at bytes alone: neither offsets nor text come into it. `Lexeme.spelling` writes a
lexeme back.

* `Lexeme.ofBytes?_eq_none_iff`: only at the end is there no lexeme.
* `Lexeme.spelling_append_drop`: a lexeme's spelling is what the bytes begin with.
* `Lexeme.length_spelling_pos`: no lexeme is empty.
-/

set_option autoImplicit false

namespace Lexis

/-- The byte of a quote. -/
def Quote.byte : Quote → UInt8
  | char => Byte.singleQuote
  | string => Byte.doubleQuote

/-- The quote that a byte is. -/
def Quote.ofByte? (b : UInt8) : Option Quote :=
  if b == Byte.singleQuote then some .char
  else if b == Byte.doubleQuote then some .string
  else none

/-- The parts of what is written at one place. A lexeme keeps all of its bytes, so that it can be
written back, and the flags that reading it decided. -/
inductive Lexeme where
  /-- A word, reserved or not. -/
  | word (letters : List UInt8)
  /-- A run of digits and dots. -/
  | number (run : List UInt8)
  /-- A quote, what follows up to the same quote or the end of the line, and the closing
  quote if there is one. -/
  | quoted (quote : Quote) (value : List UInt8) (isTerminated : Bool)
  /-- Two slashes, a third one if it is a doc comment, and the rest of the line. -/
  | lineComment (isDoc : Bool) (content : List UInt8)
  /-- A slash and a star, a second star if it is a doc comment, and what follows up to the
  closing star and slash. There are none if `openDepth` comments are open at the end. -/
  | blockComment (isDoc : Bool) (content : List UInt8) (openDepth : Nat)
  /-- Any other byte. -/
  | single (byte : UInt8)
  deriving DecidableEq, Repr, Inhabited

namespace Lexeme

/-- The bytes of a lexeme. -/
def spelling : Lexeme → List UInt8
  | word letters => letters
  | number run => run
  | quoted quote value isTerminated =>
    quote.byte :: value ++ (if isTerminated then [quote.byte] else [])
  | lineComment isDoc content =>
    Byte.slash :: Byte.slash :: (if isDoc then [Byte.slash] else []) ++ content
  | blockComment isDoc content openDepth =>
    Byte.slash :: Byte.star :: (if isDoc then [Byte.star] else []) ++ content
      ++ (if openDepth = 0 then [Byte.star, Byte.slash] else [])
  | single byte => [byte]

/-- How many bytes a lexeme takes. -/
def width (lexeme : Lexeme) : Nat := lexeme.spelling.length

/-! ### Reading a lexeme -/

/-- Whether a byte after the opening quote belongs to the literal. -/
def staysQuoted (quote : Quote) (b : UInt8) : Bool := b != quote.byte && b != Byte.lineFeed

/-- The literal whose opening quote stands before the bytes. -/
def quotedFrom (quote : Quote) (body : List UInt8) : Lexeme :=
  .quoted quote (body.takeWhile (staysQuoted quote))
    ((body.dropWhile (staysQuoted quote)).head? == some quote.byte)

/-- The comment whose two slashes stand before the bytes. A third slash makes it a doc
comment, a fourth does not. -/
def lineCommentFrom (body : List UInt8) : Lexeme :=
  let isDoc := body[0]? == some Byte.slash && body[1]? != some Byte.slash
  .lineComment isDoc ((body.drop isDoc.toNat).takeWhile (· != Byte.lineFeed))

/-- Where a block comment ends that is open `depth + 1` times, and how many are still open there.
Openers and closers are taken from left to right and share no byte. The count of the bytes before
the end starts at `seen`. The closer of the outermost comment is not counted, so the count is the
length of the content. -/
def commentEnd (depth seen : Nat) : List UInt8 → Nat × Nat
  | [] => (seen, depth + 1)
  | [_] => (seen + 1, depth + 1)
  | a :: b :: rest =>
    if a == Byte.slash && b == Byte.star then commentEnd (depth + 1) (seen + 2) rest
    else if a == Byte.star && b == Byte.slash then
      match depth with
      | 0 => (seen, 0)
      | depth + 1 => commentEnd depth (seen + 2) rest
    else commentEnd depth (seen + 1) (b :: rest)

/-- The comment whose slash and star stand before the bytes. A second star makes it a doc
comment, unless a third star or the closing slash follows. -/
def blockCommentFrom (body : List UInt8) : Lexeme :=
  let isDoc :=
    body[0]? == some Byte.star && body[1]? != some Byte.star && body[1]? != some Byte.slash
  let text := body.drop isDoc.toNat
  let (length, openDepth) := commentEnd 0 0 text
  .blockComment isDoc (text.take length) openDepth

/-- The comment at the front of the bytes, if there is one. -/
def comment? : List UInt8 → Option Lexeme
  | a :: b :: body =>
    if a != Byte.slash then none
    else if b == Byte.slash then some (lineCommentFrom body)
    else if b == Byte.star then some (blockCommentFrom body)
    else none
  | _ => none

/-- The lexeme at the front of the bytes. Comments are looked for if `comments` says so, and
otherwise the slash that would open one stands for itself. Words, numbers and literals are told
apart by the first byte alone, a comment by the first two. -/
def ofBytes? (comments : Bool) : List UInt8 → Option Lexeme
  | [] => none
  | b :: rest =>
    some <|
      if Byte.startsWord b then .word (b :: rest.takeWhile Byte.continuesWord)
      else if Byte.isDigit b then .number (b :: rest.takeWhile Byte.continuesNumber)
      else
        match Quote.ofByte? b with
        | some quote => quotedFrom quote rest
        | none =>
          match (if comments then comment? (b :: rest) else none) with
          | some comment => comment
          | none => .single b

/-! ### Small laws -/

/-- A byte that is taken for a quote is the byte of that quote. -/
theorem quote_byte_of_ofByte? {b : UInt8} {quote : Quote} (h : Quote.ofByte? b = some quote) :
    quote.byte = b := by
  rw [Quote.ofByte?] at h
  split at h
  · next hb =>
      cases h
      exact (beq_iff_eq.mp hb).symm
  · split at h
    · next hb =>
        cases h
        exact (beq_iff_eq.mp hb).symm
    · cases h

/-- Only at the end is there no lexeme: a byte that begins nothing else is a lexeme by itself. So
scanning never gets stuck. -/
theorem ofBytes?_eq_none_iff {comments : Bool} {bytes : List UInt8} :
    ofBytes? comments bytes = none ↔ bytes = [] := by
  cases bytes <;> simp [ofBytes?]

/-- A number `n` that a scan of `bytes` counted from `seen` on lies within the bytes, and if the
scan ended at a closer then the closer stands there. If it ended without one, then at the end of
the bytes. The three parts go by one induction, since each needs the count of the others. -/
theorem commentEnd_bounds (depth seen : Nat) (bytes : List UInt8) :
    seen ≤ (commentEnd depth seen bytes).1 ∧
    ((commentEnd depth seen bytes).2 = 0 →
      bytes.drop ((commentEnd depth seen bytes).1 - seen)
        = Byte.star :: Byte.slash :: bytes.drop ((commentEnd depth seen bytes).1 - seen + 2)) ∧
    ((commentEnd depth seen bytes).2 ≠ 0 →
      (commentEnd depth seen bytes).1 - seen = bytes.length) := by
  fun_induction commentEnd depth seen bytes with
  | case1 => simp
  | case2 => simp
  | case3 depth seen a b rest _ ih =>
      -- An opener: the end lies two bytes further on than it does seen from behind the opener.
      obtain ⟨hle, hclosed, hopen⟩ := ih
      refine ⟨by omega, fun h => ?_, fun h => ?_⟩
      · have hc := hclosed h
        generalize (commentEnd (depth + 1) (seen + 2) rest).1 = n at hle hc ⊢
        obtain ⟨k, rfl⟩ : ∃ k, n = seen + 2 + k := ⟨n - (seen + 2), by omega⟩
        rw [show seen + 2 + k - seen = k + 1 + 1 by omega,
          show k + 1 + 1 + 2 = k + 2 + 1 + 1 by omega]
        rw [show seen + 2 + k - (seen + 2) = k by omega] at hc
        simpa using hc
      · have := hopen h
        simp only [List.length_cons]
        omega
  | case4 seen a b rest _ hab =>
      -- The closer of the outermost comment: the scan ends in front of it.
      simp only [Bool.and_eq_true, beq_iff_eq] at hab
      simp [hab.1, hab.2]
  | case5 seen a b rest _ _ depth ih =>
      -- The closer of an inner comment is passed over like an opener.
      obtain ⟨hle, hclosed, hopen⟩ := ih
      refine ⟨by omega, fun h => ?_, fun h => ?_⟩
      · have hc := hclosed h
        generalize (commentEnd depth (seen + 2) rest).1 = n at hle hc ⊢
        obtain ⟨k, rfl⟩ : ∃ k, n = seen + 2 + k := ⟨n - (seen + 2), by omega⟩
        rw [show seen + 2 + k - seen = k + 1 + 1 by omega,
          show k + 1 + 1 + 2 = k + 2 + 1 + 1 by omega]
        rw [show seen + 2 + k - (seen + 2) = k by omega] at hc
        simpa using hc
      · have := hopen h
        simp only [List.length_cons]
        omega
  | case6 depth seen a b rest _ _ ih =>
      -- Neither: one byte is passed over, and the next may be the first half of either.
      obtain ⟨hle, hclosed, hopen⟩ := ih
      refine ⟨by omega, fun h => ?_, fun h => ?_⟩
      · have hc := hclosed h
        generalize (commentEnd depth (seen + 1) (b :: rest)).1 = n at hle hc ⊢
        obtain ⟨k, rfl⟩ : ∃ k, n = seen + 1 + k := ⟨n - (seen + 1), by omega⟩
        rw [show seen + 1 + k - seen = k + 1 by omega, show k + 1 + 2 = k + 2 + 1 by omega]
        rw [show seen + 1 + k - (seen + 1) = k by omega] at hc
        simpa using hc
      · have := hopen h
        simp only [List.length_cons] at this ⊢
        omega

/-! ### A lexeme is what the bytes begin with -/

/-- A literal is what the bytes begin with. Its closing quote, if it has one, is the byte that
stopped the literal, and a line feed that stopped it is not part of the spelling. -/
theorem spelling_quotedFrom_isPrefix (quote : Quote) (body : List UInt8) :
    (quotedFrom quote body).spelling <+: quote.byte :: body := by
  have hsplit : body.takeWhile (staysQuoted quote) ++ body.dropWhile (staysQuoted quote) = body :=
    List.takeWhile_append_dropWhile
  show quote.byte :: (_ ++ _) <+: _
  rw [List.prefix_cons_inj]
  cases hclosed : (body.dropWhile (staysQuoted quote)).head? == some quote.byte with
  | false =>
      rw [if_neg Bool.false_ne_true, List.append_nil]
      exact List.takeWhile_prefix _
  | true =>
      -- The byte that stopped the literal is its quote, so the spelling goes one byte further.
      rw [if_pos rfl]
      obtain ⟨tail, htail⟩ := List.head?_eq_some_iff.mp (beq_iff_eq.mp hclosed)
      refine ⟨tail, ?_⟩
      rw [List.append_assoc, List.singleton_append, ← htail, hsplit]

/-- A line comment is what the bytes begin with, its third slash included when that makes it a doc
comment. The line feed behind it is not part of the spelling. -/
theorem spelling_lineCommentFrom_isPrefix (body : List UInt8) :
    (lineCommentFrom body).spelling <+: Byte.slash :: Byte.slash :: body := by
  show Byte.slash :: Byte.slash :: (_ ++ _) <+: _
  rw [List.prefix_cons_inj, List.prefix_cons_inj]
  cases hdoc : body[0]? == some Byte.slash && body[1]? != some Byte.slash with
  | false =>
      rw [if_neg Bool.false_ne_true, List.nil_append]
      exact List.takeWhile_prefix _
  | true =>
      -- The mark of a doc comment is a byte of the body, and the content starts behind it.
      rw [if_pos rfl]
      obtain ⟨rest, rfl⟩ : ∃ rest, body = Byte.slash :: rest := by
        rw [Bool.and_eq_true, beq_iff_eq, ← List.head?_eq_getElem?] at hdoc
        exact List.head?_eq_some_iff.mp hdoc.1
      rw [List.singleton_append, List.prefix_cons_inj]
      exact List.takeWhile_prefix _

/-- The text of a block comment, with its closer if it has one, is what the text begins
with. -/
theorem take_commentEnd_isPrefix (text : List UInt8) :
    text.take (commentEnd 0 0 text).1
      ++ (if (commentEnd 0 0 text).2 = 0 then [Byte.star, Byte.slash] else []) <+: text := by
  obtain ⟨_, hclosed, _⟩ := commentEnd_bounds 0 0 text
  split
  · next h =>
      have hdrop := hclosed h
      rw [Nat.sub_zero] at hdrop
      refine ⟨text.drop ((commentEnd 0 0 text).1 + 2), ?_⟩
      rw [List.append_assoc, List.cons_append, List.cons_append, List.nil_append, ← hdrop,
        List.take_append_drop]
  · rw [List.append_nil]
    exact List.take_prefix _ _

/-- A block comment is what the bytes begin with, from its opener to its closer, or to the end
when it has none. -/
theorem spelling_blockCommentFrom_isPrefix (body : List UInt8) :
    (blockCommentFrom body).spelling <+: Byte.slash :: Byte.star :: body := by
  show Byte.slash :: Byte.star :: (_ ++ _ ++ _) <+: _
  rw [List.prefix_cons_inj, List.prefix_cons_inj, List.append_assoc]
  cases hdoc : body[0]? == some Byte.star && body[1]? != some Byte.star
      && body[1]? != some Byte.slash with
  | false =>
      rw [if_neg Bool.false_ne_true, List.nil_append]
      exact take_commentEnd_isPrefix body
  | true =>
      rw [if_pos rfl]
      obtain ⟨rest, rfl⟩ : ∃ rest, body = Byte.star :: rest := by
        rw [Bool.and_eq_true, Bool.and_eq_true, beq_iff_eq, ← List.head?_eq_getElem?] at hdoc
        exact List.head?_eq_some_iff.mp hdoc.1.1
      rw [List.singleton_append, List.prefix_cons_inj]
      exact take_commentEnd_isPrefix rest

/-- A comment of either form is what the bytes begin with: nothing is left out of it, and nothing
added. -/
theorem spelling_comment?_isPrefix {bytes : List UInt8} {lexeme : Lexeme}
    (h : comment? bytes = some lexeme) : lexeme.spelling <+: bytes := by
  match bytes, h with
  | a :: b :: body, h =>
    rw [comment?] at h
    split at h
    · cases h
    next ha =>
      have ha : a = Byte.slash := by simpa using ha
      subst ha
      split at h
      · next hb =>
          cases h
          rw [beq_iff_eq.mp hb]
          exact spelling_lineCommentFrom_isPrefix body
      · split at h
        · next hb =>
            cases h
            rw [beq_iff_eq.mp hb]
            exact spelling_blockCommentFrom_isPrefix body
        · cases h
  | [_], h => cases h
  | [], h => cases h

/-- Every lexeme is what the bytes begin with. The cases are those of `ofBytes?`: a run of bytes
of one class, a literal, a comment, or a byte alone. -/
theorem spelling_isPrefix {comments : Bool} {bytes : List UInt8} {lexeme : Lexeme}
    (h : ofBytes? comments bytes = some lexeme) : lexeme.spelling <+: bytes := by
  match bytes, h with
  | b :: rest, h =>
    rw [ofBytes?, Option.some.injEq] at h
    subst h
    split
    · rw [spelling, List.prefix_cons_inj]
      exact List.takeWhile_prefix _
    · split
      · rw [spelling, List.prefix_cons_inj]
        exact List.takeWhile_prefix _
      · split
        · next quote hquote =>
            rw [← quote_byte_of_ofByte? hquote]
            exact spelling_quotedFrom_isPrefix quote rest
        · split
          · next comment hcomment =>
              cases comments with
              | false => cases hcomment
              | true => exact spelling_comment?_isPrefix hcomment
          · exact ⟨rest, rfl⟩

/-- A lexeme followed by the bytes behind its width makes up all the bytes: nothing is dropped and
nothing is read twice. -/
theorem spelling_append_drop {comments : Bool} {bytes : List UInt8} {lexeme : Lexeme}
    (h : ofBytes? comments bytes = some lexeme) :
    lexeme.spelling ++ bytes.drop lexeme.width = bytes :=
  List.prefix_iff_eq_append.mp (spelling_isPrefix h)

/-- No lexeme is empty. Each case of `ofBytes?` takes at least the byte that decided for it, and
so scanning gets on. -/
theorem length_spelling_pos {comments : Bool} {bytes : List UInt8} {lexeme : Lexeme}
    (h : ofBytes? comments bytes = some lexeme) : 0 < lexeme.width := by
  match bytes, h with
  | b :: rest, h =>
    rw [ofBytes?, Option.some.injEq] at h
    subst h
    split
    · simp [width, spelling]
    · split
      · simp [width, spelling]
      · split
        · simp [width, spelling, quotedFrom]
        · split
          · next comment hcomment =>
              cases comments with
              | false => cases hcomment
              | true =>
                  cases rest with
                  | nil => cases hcomment
                  | cons c body =>
                      simp only [if_true, comment?] at hcomment
                      split at hcomment
                      · cases hcomment
                      · split at hcomment
                        · cases hcomment
                          simp [width, spelling, lineCommentFrom]
                        · split at hcomment
                          · cases hcomment
                            simp [width, spelling, blockCommentFrom]
                          · cases hcomment
          · simp [width, spelling]

end Lexeme

end Lexis
