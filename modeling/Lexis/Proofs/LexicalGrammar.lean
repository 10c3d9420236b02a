import Lexis.Proofs.Nesting

/-!
# `Lexis.Proofs.LexicalGrammar`: where a lexeme ends

`Lexeme.ofBytes?` computes what the front of the bytes spells. This file says the same by
rules that compute nothing: `LongestRun` for words, numbers, quoted text and line comments,
`Nests` (`Lexis.Proofs.Nesting`) for block comments, and `Lexeme.EndsBefore` for a lexeme
with the bytes that follow it. The theorems:

* `Lexeme.ofBytes?_of_endsBefore`: a lexeme is read where it ends by the rules.
* `Lexeme.exists_endsBefore`: behind every byte that is not blank some lexeme ends.
* `Lexeme.ofBytes?_cons_eq_some_iff`: the two together. The lexeme at the front of the bytes
  is the one whose spelling they begin with and which ends before the rest of them.
-/

set_option autoImplicit false

namespace Lexis

/-! ### Longest runs -/

/-- The bytes of `run` belong to it, and no byte that belongs to it comes next. This is the rule
that words, numbers, quoted text and line comments share, without a word on how the run is found. -/
structure LongestRun (belongs : UInt8 → Bool) (run rest : List UInt8) : Prop where
  within : ∀ b ∈ run, belongs b = true
  beyond : ∀ b ∈ rest.head?, belongs b = false

namespace LongestRun

variable {belongs : UInt8 → Bool} {run rest : List UInt8}

/-- Taking bytes while they belong finds the longest run. This is how a lexer finds the end of a
word, a number, a literal or a line comment. -/
theorem takeWhile_append (h : LongestRun belongs run rest) :
    (run ++ rest).takeWhile belongs = run := by
  rw [List.takeWhile_append_of_pos h.within]
  cases rest with
  | nil => simp
  | cons b rest =>
      have hb : belongs b = false := h.beyond b rfl
      simp [hb]

/-- Dropping bytes while they belong leaves what follows the longest run, which the lexer goes on
with. -/
theorem dropWhile_append (h : LongestRun belongs run rest) :
    (run ++ rest).dropWhile belongs = rest := by
  rw [List.dropWhile_append_of_pos h.within]
  cases rest with
  | nil => rfl
  | cons b rest =>
      have hb : belongs b = false := h.beyond b rfl
      simp [hb]

/-- The longest run at the front of any bytes. It may be empty, where the first byte does not
belong. -/
theorem of_takeWhile (belongs : UInt8 → Bool) (bytes : List UInt8) :
    LongestRun belongs (bytes.takeWhile belongs) (bytes.dropWhile belongs) where
  within := List.all_eq_true.mp List.all_takeWhile
  beyond := by
    intro b hb
    have hstop := List.head?_dropWhile_not belongs bytes
    rw [Option.mem_def.mp hb] at hstop
    simpa using hstop

/-- A longest run stays one when bytes that belong to it come in front. What is behind a run
decides whether it is the longest, and that stays. -/
theorem prepend (h : LongestRun belongs run rest) {front : List UInt8}
    (hfront : ∀ b ∈ front, belongs b = true) : LongestRun belongs (front ++ run) rest where
  within := by
    intro b hb
    rcases List.mem_append.mp hb with hb | hb
    · exact hfront b hb
    · exact h.within b hb
  beyond := h.beyond

/-- What is left of a longest run behind its front is one. With `prepend` a run can be taken apart
at any byte, as behind the mark of a doc comment. -/
theorem of_append {front : List UInt8} (h : LongestRun belongs (front ++ run) rest) :
    LongestRun belongs run rest where
  within := by
    intro b hb
    exact h.within b (List.mem_append_right front hb)
  beyond := h.beyond

/-- A byte that does not belong to a run ends it no matter what follows, so more bytes can
come behind what followed the run before. -/
theorem append_cons (h : LongestRun belongs run rest) {b : UInt8} (hb : belongs b = false)
    (tail : List UInt8) : LongestRun belongs run (rest ++ b :: tail) where
  within := h.within
  beyond := by
    intro c hc
    cases rest with
    | nil =>
        have hcb : b = c := by simpa using hc
        exact hcb ▸ hb
    | cons d rest => exact h.beyond c (by simpa using hc)

end LongestRun

/-! ### Where a lexeme ends -/

namespace Lexeme

/-- Whether what follows two slashes begins with the mark of a doc comment. -/
def marksDocLine (body : List UInt8) : Bool :=
  body[0]? == some Byte.slash && body[1]? != some Byte.slash

/-- Whether what follows a slash and a star begins with the mark of a doc comment. -/
def marksDocBlock (body : List UInt8) : Bool :=
  body[0]? == some Byte.star && body[1]? != some Byte.star && body[1]? != some Byte.slash

/-- The bytes between the opener of a block comment and its content. -/
def docStar (isDoc : Bool) : List UInt8 := if isDoc then [Byte.star] else []

/-- The bytes between the two slashes of a line comment and its content. -/
def docSlash (isDoc : Bool) : List UInt8 := if isDoc then [Byte.slash] else []

/-- The mark of a doc comment in a line is a slash. -/
theorem mem_docSlash {isDoc : Bool} {b : UInt8} (h : b ∈ docSlash isDoc) : b = Byte.slash := by
  cases isDoc with
  | false => cases h
  | true => exact List.mem_singleton.mp h

/-- A byte that is a lexeme of its own where `rest` comes behind it: no blank, word, number,
quoted literal or comment begins with it. Only a slash depends on what comes behind it, and only
if comments are wanted. -/
structure StandsAlone (comments : Bool) (b : UInt8) (rest : List UInt8) : Prop where
  blank : Byte.isBlank b = false
  word : Byte.startsWord b = false
  digit : Byte.isDigit b = false
  quote : ∀ quote : Quote, b ≠ quote.byte
  comment : comments = true → b = Byte.slash →
    rest.head? ≠ some Byte.slash ∧ rest.head? ≠ some Byte.star

/-- A lexeme that is complete where `rest` comes behind it: nothing of `rest` continues it.
Comments are lexemes if `comments` says so. Blanks are not. A block comment that is left open ends
only at the end of the source, and so nothing comes behind it. -/
inductive EndsBefore (comments : Bool) : Lexeme → List UInt8 → Prop where
  | word {b : UInt8} {run rest : List UInt8} (hb : Byte.startsWord b = true)
      (hrun : LongestRun Byte.continuesWord run rest) :
      EndsBefore comments (.word (b :: run)) rest
  | number {b : UInt8} {run rest : List UInt8} (hb : Byte.isDigit b = true)
      (hrun : LongestRun Byte.continuesNumber run rest) :
      EndsBefore comments (.number (b :: run)) rest
  | terminated {quote : Quote} {value rest : List UInt8}
      (hrun : LongestRun (staysQuoted quote) value (quote.byte :: rest)) :
      EndsBefore comments (.quoted quote value true) rest
  | unterminated {quote : Quote} {value rest : List UInt8}
      (hrun : LongestRun (staysQuoted quote) value rest) (hopen : rest.head? ≠ some quote.byte) :
      EndsBefore comments (.quoted quote value false) rest
  | lineComment {isDoc : Bool} {content rest : List UInt8} (hcomments : comments = true)
      (hdoc : marksDocLine (docSlash isDoc ++ content ++ rest) = isDoc)
      (hrun : LongestRun (· != Byte.lineFeed) content rest) :
      EndsBefore comments (.lineComment isDoc content) rest
  | closedComment {isDoc : Bool} {content rest : List UInt8} (hcomments : comments = true)
      (hdoc : marksDocBlock (docStar isDoc ++ content ++ [Byte.star, Byte.slash] ++ rest) = isDoc)
      (hnest : Nests 1 0 (content ++ [Byte.star, Byte.slash])) :
      EndsBefore comments (.blockComment isDoc content 0) rest
  | openComment {isDoc : Bool} {content : List UInt8} {depth : Nat} (hcomments : comments = true)
      (hdoc : marksDocBlock (docStar isDoc ++ content) = isDoc)
      (hnest : Nests 1 (depth + 1) content) :
      EndsBefore comments (.blockComment isDoc content (depth + 1)) []
  | single {b : UInt8} {rest : List UInt8} (halone : StandsAlone comments b rest) :
      EndsBefore comments (.single b) rest

/-! The spellings of the lexemes that have delimiters, and the widths of quoted literals. -/

/-- A terminated literal stands between two quotes. -/
theorem spelling_terminated (quote : Quote) (value : List UInt8) :
    (Lexeme.quoted quote value true).spelling = quote.byte :: (value ++ [quote.byte]) := rfl

/-- A literal that is not terminated has its opening quote only. -/
theorem spelling_unterminated (quote : Quote) (value : List UInt8) :
    (Lexeme.quoted quote value false).spelling = quote.byte :: value := by
  simp [spelling]

/-- A terminated literal takes two bytes more than its value. -/
theorem width_terminated (quote : Quote) (value : List UInt8) :
    (Lexeme.quoted quote value true).width = value.length + 2 := by
  rw [width, spelling_terminated, List.length_cons, List.length_append]
  rfl

/-- A literal that is not terminated takes one byte more than its value. -/
theorem width_unterminated (quote : Quote) (value : List UInt8) :
    (Lexeme.quoted quote value false).width = value.length + 1 := by
  rw [width, spelling_unterminated, List.length_cons]

/-- A line comment begins with its slashes, and ends with its content. -/
theorem spelling_lineComment (isDoc : Bool) (content : List UInt8) :
    (Lexeme.lineComment isDoc content).spelling
      = Byte.slash :: Byte.slash :: (docSlash isDoc ++ content) := rfl

/-- A closed block comment begins with its opener and ends with its closer. -/
theorem spelling_closedComment (isDoc : Bool) (content : List UInt8) :
    (Lexeme.blockComment isDoc content 0).spelling
      = Byte.slash :: Byte.star :: (docStar isDoc ++ content ++ [Byte.star, Byte.slash]) := rfl

/-- An open block comment begins with its opener and ends with its content. -/
theorem spelling_openComment (isDoc : Bool) (content : List UInt8) (depth : Nat) :
    (Lexeme.blockComment isDoc content (depth + 1)).spelling
      = Byte.slash :: Byte.star :: (docStar isDoc ++ content) := by
  simp [spelling, docStar]

/-! The classes of bytes are apart. There are 256 bytes, and each is tried. -/

/-- A digit starts no word. So what begins with a digit is a number, whichever of the two is tried
first. -/
theorem startsWord_of_isDigit : ∀ {b : UInt8}, Byte.isDigit b = true →
    Byte.startsWord b = false := by
  rintro ⟨b⟩
  revert b
  decide

/-- A byte that starts a word is not blank, so that no word is lost among the blanks that are
skipped. -/
theorem isBlank_of_startsWord : ∀ {b : UInt8}, Byte.startsWord b = true →
    Byte.isBlank b = false := by
  rintro ⟨b⟩
  revert b
  decide

/-- A digit is not blank, so that no number is lost among the blanks that are skipped. -/
theorem isBlank_of_isDigit : ∀ {b : UInt8}, Byte.isDigit b = true →
    Byte.isBlank b = false := by
  rintro ⟨b⟩
  revert b
  decide

/-- A byte is no quote when it is neither of the two. The lexer looks the byte up, and the rules
of the grammar speak of the bytes that quotes have. -/
theorem quote_ofByte?_eq_none_iff {b : UInt8} :
    Quote.ofByte? b = none ↔ ∀ quote : Quote, b ≠ quote.byte := by
  constructor
  · rintro h quote rfl
    cases quote <;> cases h
  · intro h
    have hchar : b ≠ Byte.singleQuote := h .char
    have hstring : b ≠ Byte.doubleQuote := h .string
    simp [Quote.ofByte?, hchar, hstring]

/-- A lexeme of bytes that start with a quote is a quoted literal, whatever comes behind it. No
quote starts a word, a number or a comment. -/
theorem ofBytes?_quote (comments : Bool) (quote : Quote) (body : List UInt8) :
    ofBytes? comments (quote.byte :: body) = some (quotedFrom quote body) := by
  cases quote <;> rfl

/-- A lexeme of bytes that start with two slashes is a line comment, where slashes begin comments.
-/
theorem ofBytes?_lineComment (body : List UInt8) :
    ofBytes? true (Byte.slash :: Byte.slash :: body) = some (lineCommentFrom body) := rfl

/-- A lexeme of bytes that start with a slash and a star is a block comment, where slashes begin
comments. It is one even if it is never closed. -/
theorem ofBytes?_blockComment (body : List UInt8) :
    ofBytes? true (Byte.slash :: Byte.star :: body) = some (blockCommentFrom body) := rfl

/-- The line comment behind two slashes, with the test for its mark under the name that the rules
have for it. -/
theorem lineCommentFrom_eq (body : List UInt8) :
    lineCommentFrom body = .lineComment (marksDocLine body)
      ((body.drop (marksDocLine body).toNat).takeWhile (· != Byte.lineFeed)) := rfl

/-- The block comment behind a slash and a star, with the test for its mark under the name that
the rules have for it. -/
theorem blockCommentFrom_eq (body : List UInt8) :
    blockCommentFrom body = .blockComment (marksDocBlock body)
      ((body.drop (marksDocBlock body).toNat).take
        (commentEnd 0 0 (body.drop (marksDocBlock body).toNat)).1)
      (commentEnd 0 0 (body.drop (marksDocBlock body).toNat)).2 := rfl

/-- Reading finds a lexeme wherever it ends by the rules. So the rules allow for one lexeme only
at the front of given bytes, whatever its length. -/
theorem ofBytes?_of_endsBefore {comments : Bool} {lexeme : Lexeme} {rest : List UInt8}
    (h : EndsBefore comments lexeme rest) :
    ofBytes? comments (lexeme.spelling ++ rest) = some lexeme := by
  -- The tests of `ofBytes?` exclude each other, and each rule answers one of them with yes.
  cases h with
  | @word b run _ hb hrun =>
      show ofBytes? comments (b :: (run ++ rest)) = _
      rw [ofBytes?, if_pos hb, hrun.takeWhile_append]
  | @number b run _ hb hrun =>
      show ofBytes? comments (b :: (run ++ rest)) = _
      rw [ofBytes?, if_neg (by simp [startsWord_of_isDigit hb]), if_pos hb, hrun.takeWhile_append]
  | @terminated quote value _ hrun =>
      rw [spelling_terminated, List.cons_append, List.append_assoc, List.singleton_append,
        ofBytes?_quote, quotedFrom, hrun.takeWhile_append, hrun.dropWhile_append]
      simp
  | @unterminated quote value _ hrun hopen =>
      rw [spelling_unterminated, List.cons_append, ofBytes?_quote, quotedFrom,
        hrun.takeWhile_append, hrun.dropWhile_append]
      simpa using hopen
  | @lineComment isDoc content _ hcomments hdoc hrun =>
      have hdrop : (docSlash isDoc ++ content ++ rest).drop isDoc.toNat = content ++ rest := by
        cases isDoc <;> rfl
      rw [spelling_lineComment, List.cons_append, List.cons_append, hcomments,
        ofBytes?_lineComment, lineCommentFrom_eq, hdoc, hdrop, hrun.takeWhile_append]
  | @closedComment isDoc content _ hcomments hdoc hnest =>
      have hdrop : (docStar isDoc ++ content ++ [Byte.star, Byte.slash] ++ rest).drop isDoc.toNat
          = content ++ [Byte.star, Byte.slash] ++ rest := by
        cases isDoc <;> rfl
      have hend := (commentEnd_of_nests_zero hnest 0 rest).2
      rw [spelling_closedComment, List.cons_append, List.cons_append, hcomments,
        ofBytes?_blockComment, blockCommentFrom_eq, hdoc, hdrop, hend]
      simp
  | @openComment isDoc content depth hcomments hdoc hnest =>
      have hdrop : (docStar isDoc ++ content).drop isDoc.toNat = content := by
        cases isDoc <;> rfl
      have hend := commentEnd_of_nests_succ hnest 0
      rw [spelling_openComment, List.append_nil, hcomments, ofBytes?_blockComment,
        blockCommentFrom_eq, hdoc, hdrop, hend]
      simp
  | @single b _ halone =>
      show ofBytes? comments (b :: rest) = _
      -- A slash that stands alone is not followed by what would make it a comment.
      have hnone : (if comments then comment? (b :: rest) else none) = none := by
        cases comments with
        | false => rfl
        | true =>
            cases rest with
            | nil => rfl
            | cons c rest =>
                by_cases hb : b = Byte.slash
                · have hc := halone.comment rfl hb
                  simp only [List.head?_cons, ne_eq, Option.some.injEq] at hc
                  simp [comment?, hc.1, hc.2]
                · simp [comment?, hb]
      rw [ofBytes?, if_neg (by simp [halone.word]), if_neg (by simp [halone.digit]),
        quote_ofByte?_eq_none_iff.mpr halone.quote, hnone]

/-- Behind an opening quote some literal ends: with its closing quote, if there is one on the
line, and otherwise with the line or the source. -/
theorem exists_endsBefore_quote (comments : Bool) (quote : Quote) (body : List UInt8) :
    ∃ lexeme rest, quote.byte :: body = lexeme.spelling ++ rest ∧
      EndsBefore comments lexeme rest := by
  have hrun := LongestRun.of_takeWhile (staysQuoted quote) body
  have hbody : body.takeWhile (staysQuoted quote) ++ body.dropWhile (staysQuoted quote) = body :=
    List.takeWhile_append_dropWhile
  -- What stops the run is the quote, or else a line feed or the end.
  by_cases hclosed : (body.dropWhile (staysQuoted quote)).head? = some quote.byte
  · obtain ⟨rest, hrest⟩ := List.head?_eq_some_iff.mp hclosed
    rw [hrest] at hrun hbody
    refine ⟨.quoted quote (body.takeWhile (staysQuoted quote)) true, rest, ?_, .terminated hrun⟩
    simp [spelling, hbody]
  · refine ⟨.quoted quote (body.takeWhile (staysQuoted quote)) false,
      body.dropWhile (staysQuoted quote), ?_, .unterminated hrun hclosed⟩
    simp [spelling]

/-- What follows two slashes, taken apart behind the mark of a doc comment, if it has one. Where
it has none, all of it is the content. -/
theorem exists_docSlash_append (body : List UInt8) :
    ∃ isDoc text, body = docSlash isDoc ++ text ∧ marksDocLine body = isDoc := by
  cases hdoc : marksDocLine body with
  | false => exact ⟨false, body, rfl, rfl⟩
  | true =>
      rw [marksDocLine, Bool.and_eq_true, beq_iff_eq, ← List.head?_eq_getElem?] at hdoc
      obtain ⟨text, rfl⟩ := List.head?_eq_some_iff.mp hdoc.1
      exact ⟨true, text, rfl, rfl⟩

/-- What follows a slash and a star, taken apart behind the mark of a doc comment, if it has one.
Where it has none, all of it is the content. -/
theorem exists_docStar_append (body : List UInt8) :
    ∃ isDoc text, body = docStar isDoc ++ text ∧ marksDocBlock body = isDoc := by
  cases hdoc : marksDocBlock body with
  | false => exact ⟨false, body, rfl, rfl⟩
  | true =>
      rw [marksDocBlock, Bool.and_eq_true, Bool.and_eq_true, beq_iff_eq,
        ← List.head?_eq_getElem?] at hdoc
      obtain ⟨text, rfl⟩ := List.head?_eq_some_iff.mp hdoc.1.1
      exact ⟨true, text, rfl, rfl⟩

/-- The mark of a doc comment never changes how a block comment nests. The star of a mark has no
slash behind it (`h`), so that it closes nothing. -/
theorem nests_docStar_append_iff {isDoc : Bool} {text rest : List UInt8} {after : Nat}
    (h : marksDocBlock (docStar isDoc ++ text ++ rest) = isDoc) :
    Nests 1 after (docStar isDoc ++ text) ↔ Nests 1 after text := by
  cases isDoc with
  | false => rfl
  | true =>
      -- Behind the star stands no slash, be it in `text` or in `rest`.
      refine nests_star_cons_iff ?_
      intro hhead
      obtain ⟨tail, rfl⟩ := List.head?_eq_some_iff.mp hhead
      simp [marksDocBlock, docStar] at h

/-- A doc comment that is closed nests as its content does with the closer. The mark is no half of
an opener or closer, since the test for it asks what comes behind. -/
theorem nests_closed_iff {isDoc : Bool} {content rest : List UInt8}
    (h : marksDocBlock (docStar isDoc ++ content ++ [Byte.star, Byte.slash] ++ rest) = isDoc) :
    Nests 1 0 (docStar isDoc ++ content ++ [Byte.star, Byte.slash])
      ↔ Nests 1 0 (content ++ [Byte.star, Byte.slash]) := by
  rw [List.append_assoc (docStar isDoc)] at h ⊢
  exact nests_docStar_append_iff h

/-- A doc comment that is left open nests as its content does. Nothing stands behind it that the
mark could be looked for in. -/
theorem nests_open_iff {isDoc : Bool} {content : List UInt8} {depth : Nat}
    (h : marksDocBlock (docStar isDoc ++ content) = isDoc) :
    Nests 1 (depth + 1) (docStar isDoc ++ content) ↔ Nests 1 (depth + 1) content := by
  rw [← List.append_nil (docStar isDoc ++ content)] at h
  exact nests_docStar_append_iff h

/-- Behind two slashes some line comment ends: with its line, or with the source. -/
theorem exists_endsBefore_lineComment (body : List UInt8) :
    ∃ lexeme rest, Byte.slash :: Byte.slash :: body = lexeme.spelling ++ rest ∧
      EndsBefore true lexeme rest := by
  obtain ⟨isDoc, text, rfl, hdoc⟩ := exists_docSlash_append body
  have hrun := LongestRun.of_takeWhile (· != Byte.lineFeed) text
  have htext : text.takeWhile (· != Byte.lineFeed) ++ text.dropWhile (· != Byte.lineFeed) = text :=
    List.takeWhile_append_dropWhile
  generalize text.takeWhile (· != Byte.lineFeed) = content at hrun htext
  generalize text.dropWhile (· != Byte.lineFeed) = rest at hrun htext
  subst htext
  refine ⟨.lineComment isDoc content, rest, by simp [spelling, docSlash], .lineComment rfl ?_ hrun⟩
  rw [List.append_assoc]
  exact hdoc

/-- Behind a slash and a star some block comment ends: with the closer that leaves none open, or
with the source. The two cases are those of `exists_nests`. -/
theorem exists_endsBefore_blockComment (body : List UInt8) :
    ∃ lexeme rest, Byte.slash :: Byte.star :: body = lexeme.spelling ++ rest ∧
      EndsBefore true lexeme rest := by
  obtain ⟨isDoc, text, rfl, hdoc⟩ := exists_docStar_append body
  -- Either some front of the text closes the comment, or nothing does.
  rcases exists_nests 0 text with ⟨closed, rest, rfl, hnest⟩ | ⟨after, hnest⟩
  · obtain ⟨content, rfl⟩ := hnest.exists_closer
    refine ⟨.blockComment isDoc content 0, rest, by simp [spelling, docStar],
      .closedComment rfl ?_ hnest⟩
    rw [← List.append_assoc, ← List.append_assoc] at hdoc
    exact hdoc
  · exact ⟨.blockComment isDoc text (after + 1), [], by simp [spelling, docStar],
      .openComment rfl hdoc hnest⟩

/-- A lexeme ends by the rules somewhere behind every byte that is not blank. There is no byte
that the rules do not cover. -/
theorem exists_endsBefore (comments : Bool) {b : UInt8} (hblank : Byte.isBlank b = false)
    (tail : List UInt8) :
    ∃ lexeme rest, b :: tail = lexeme.spelling ++ rest ∧ EndsBefore comments lexeme rest := by
  -- The cases are those of `ofBytes?`, in its order.
  cases hword : Byte.startsWord b with
  | true =>
      exact ⟨.word (b :: tail.takeWhile Byte.continuesWord), tail.dropWhile Byte.continuesWord,
        by simp [spelling], .word hword (.of_takeWhile _ tail)⟩
  | false =>
      cases hdigit : Byte.isDigit b with
      | true =>
          exact ⟨.number (b :: tail.takeWhile Byte.continuesNumber),
            tail.dropWhile Byte.continuesNumber, by simp [spelling],
            .number hdigit (.of_takeWhile _ tail)⟩
      | false =>
          cases hquote : Quote.ofByte? b with
          | some quote =>
              rw [← quote_byte_of_ofByte? hquote]
              exact exists_endsBefore_quote comments quote tail
          | none =>
              by_cases hopen : comments = true ∧ b = Byte.slash ∧
                  (tail.head? = some Byte.slash ∨ tail.head? = some Byte.star)
              · obtain ⟨rfl, rfl, hhead⟩ := hopen
                rcases hhead with hhead | hhead
                · obtain ⟨body, rfl⟩ := List.head?_eq_some_iff.mp hhead
                  exact exists_endsBefore_lineComment body
                · obtain ⟨body, rfl⟩ := List.head?_eq_some_iff.mp hhead
                  exact exists_endsBefore_blockComment body
              · refine ⟨.single b, tail, rfl,
                  .single ⟨hblank, hword, hdigit, quote_ofByte?_eq_none_iff.mp hquote, ?_⟩⟩
                intro hcomments hb
                constructor
                · intro hhead
                  exact hopen ⟨hcomments, hb, .inl hhead⟩
                · intro hhead
                  exact hopen ⟨hcomments, hb, .inr hhead⟩

/-- The lexeme at the front of bytes without a blank there is the one that they begin with and
that ends, by the rules, before the rest of them. Reading and the rules say the same: each
direction is one of the two lemmas before. -/
theorem ofBytes?_cons_eq_some_iff {comments : Bool} {b : UInt8} {tail : List UInt8}
    {lexeme : Lexeme} (hblank : Byte.isBlank b = false) :
    ofBytes? comments (b :: tail) = some lexeme
      ↔ ∃ rest, b :: tail = lexeme.spelling ++ rest ∧ EndsBefore comments lexeme rest := by
  constructor
  · intro h
    -- Some lexeme ends there by the rules, and reading finds that one.
    obtain ⟨found, rest, hbytes, hends⟩ := exists_endsBefore comments hblank tail
    have hfound := ofBytes?_of_endsBefore hends
    rw [← hbytes, h, Option.some.injEq] at hfound
    exact ⟨rest, hfound ▸ hbytes, hfound ▸ hends⟩
  · rintro ⟨rest, hbytes, hends⟩
    rw [hbytes]
    exact ofBytes?_of_endsBefore hends

/-- No lexeme starts with a blank. The byte that does start it is there in each case, so no lexeme
is empty either. -/
theorem exists_spelling_eq_cons {comments : Bool} {lexeme : Lexeme} {rest : List UInt8}
    (h : EndsBefore comments lexeme rest) :
    ∃ b tail, lexeme.spelling = b :: tail ∧ Byte.isBlank b = false := by
  cases h with
  | word hb _ => exact ⟨_, _, rfl, isBlank_of_startsWord hb⟩
  | number hb _ => exact ⟨_, _, rfl, isBlank_of_isDigit hb⟩
  | @terminated quote => exact ⟨quote.byte, _, rfl, by cases quote <;> rfl⟩
  | @unterminated quote => exact ⟨quote.byte, _, rfl, by cases quote <;> rfl⟩
  | lineComment => exact ⟨Byte.slash, _, rfl, rfl⟩
  | closedComment => exact ⟨Byte.slash, _, rfl, rfl⟩
  | openComment => exact ⟨Byte.slash, _, rfl, rfl⟩
  | single halone => exact ⟨_, _, rfl, halone.blank⟩

end Lexeme

end Lexis
