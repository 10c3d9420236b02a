import Lexis.Proofs.Order

/-!
# `Lexis.Proofs.LineEndings`: carriage returns in front of line feeds

Some sources end their lines with a line feed, others with a carriage return in front of it.
`Byte.withReturns` turns bytes of the first form into the second. Every lexeme stays, and so
does where it ends, with two exceptions that take the carriage return in: a quoted literal that
the end of its line breaks off, and a line comment. The theorems:

* `Text.bytes_withReturns`: the text and its bytes are turned alike.
* `Nests.withReturns`: so block comments nest as before.
* `Lexeme.EndsBefore.exists_turned`: what becomes of a lexeme, and of what follows it.
* `Lexeme.scan_withReturns`: what becomes of a scan.
-/

set_option autoImplicit false

namespace Lexis

/-! ### Bytes and texts -/

namespace Byte

/-- The bytes for a byte: a line feed gets a carriage return in front. -/
def withReturn (b : UInt8) : List UInt8 :=
  if b = lineFeed then [carriageReturn, lineFeed] else [b]

/-- The bytes with a carriage return in front of each line feed. -/
def withReturns (bytes : List UInt8) : List UInt8 := bytes.flatMap withReturn

/-- The carriage return that comes to stand in front of the bytes, if there will be one. -/
def returnBefore (bytes : List UInt8) : List UInt8 :=
  if bytes.head? = some lineFeed then [carriageReturn] else []

variable {b : UInt8} {rest : List UInt8}

/-- No bytes stay no bytes. -/
theorem withReturns_nil : withReturns [] = [] := rfl

/-- Bytes are turned part by part. -/
theorem withReturns_append (front rest : List UInt8) :
    withReturns (front ++ rest) = withReturns front ++ withReturns rest :=
  List.flatMap_append

/-- A line feed gets a carriage return in front. -/
theorem withReturns_lineFeed (rest : List UInt8) :
    withReturns (lineFeed :: rest) = carriageReturn :: lineFeed :: withReturns rest := rfl

/-- Any other byte stays as it is. -/
theorem withReturns_cons (hb : b ≠ lineFeed) (rest : List UInt8) :
    withReturns (b :: rest) = b :: withReturns rest := by
  rw [withReturns, List.flatMap_cons, withReturn, if_neg hb]
  rfl

/-- Bytes without a line feed stay. -/
theorem withReturns_of_not_mem {bytes : List UInt8} (h : lineFeed ∉ bytes) :
    withReturns bytes = bytes := by
  induction bytes with
  | nil => rfl
  | cons b rest ih =>
      rw [List.mem_cons, not_or] at h
      rw [withReturns_cons (Ne.symm h.1), ih h.2]

/-- The first byte stays, or a carriage return comes first. So what ends before the bytes ends
before the turned ones too, if a carriage return does not continue it. -/
theorem head?_withReturns {bytes : List UInt8} :
    ∀ c ∈ (withReturns bytes).head?, c = carriageReturn ∨ bytes.head? = some c := by
  intro c hc
  cases bytes with
  | nil => cases hc
  | cons b rest =>
      by_cases hb : b = lineFeed
      · subst hb
        exact .inl (Option.some.inj hc).symm
      · rw [withReturns_cons hb] at hc
        exact .inr hc

/-- Each line feed makes the bytes one longer, and nothing else does. -/
theorem length_withReturns (bytes : List UInt8) :
    (withReturns bytes).length = bytes.length + bytes.count lineFeed := by
  induction bytes with
  | nil => rfl
  | cons b rest ih =>
      by_cases hb : b = lineFeed
      · subst hb
        rw [withReturns_lineFeed, List.count_cons_self]
        simp only [List.length_cons, ih]
        omega
      · rw [withReturns_cons hb, List.count_cons_of_ne hb]
        simp only [List.length_cons, ih]
        omega

/-- Where an offset comes to: as many bytes further on as there are line feeds in front. A line
feed at the offset itself does not count, although its carriage return will stand there. -/
def turnedOffset (bytes : List UInt8) (offset : Nat) : Nat :=
  offset + (bytes.take offset).count lineFeed

/-- The end of a part comes to the end of the turned part, so that offsets between lexemes can be
followed. -/
theorem turnedOffset_length (front rest : List UInt8) :
    turnedOffset (front ++ rest) front.length = (withReturns front).length := by
  rw [turnedOffset, List.take_left, length_withReturns]

/-- The offsets stay in order, as turning adds no fewer bytes in front of a later one. -/
theorem turnedOffset_lt_iff {bytes : List UInt8} {i j : Nat} :
    turnedOffset bytes i < turnedOffset bytes j ↔ i < j := by
  have hcount {m n : Nat} (h : m ≤ n) :
      (bytes.take m).count lineFeed ≤ (bytes.take n).count lineFeed :=
    (List.take_sublist_take_left h).count_le lineFeed
  simp only [turnedOffset]
  rcases Nat.lt_or_ge i j with h | h
  · have := hcount (Nat.le_of_lt h)
    omega
  · have := hcount h
    omega

end Byte

open Byte (lineFeed carriageReturn returnBefore)

namespace Text

/-- The text with a carriage return in front of each line feed. -/
def withReturns (text : String) : String :=
  String.ofList (text.toList.flatMap fun c => if c = '\n' then ['\r', '\n'] else [c])

/-- An ASCII byte of a character is all of the character. So a line feed among the bytes of a text
is a character of the text. -/
theorem utf8EncodeChar_eq_of_mem {c : Char} {b : UInt8} (hb : b < 0x80)
    (h : b ∈ String.utf8EncodeChar c) : c = Char.ofUInt8 b := by
  obtain ⟨front, rest, hc⟩ := List.append_of_mem h
  obtain rfl := (isUTF8FirstByte_iff_eq_nil hc).mp (isUTF8FirstByte_of_ascii hb)
  obtain rfl := utf8EncodeChar_eq_singleton_of_ascii hc hb
  have hchar := charAt?_utf8EncodeChar_append c []
  rw [hc, List.nil_append, ← utf8EncodeChar_toChar hb, charAt?_utf8EncodeChar_append] at hchar
  exact (Option.some.inj hchar).symm

/-- An ASCII byte stands in the bytes of a text only if its character stands in the text. The
bytes of other characters are all outside of ASCII. -/
theorem mem_toList_of_mem_bytes {text : String} {b : UInt8} (hb : b < 0x80)
    (h : b ∈ bytes text) : Char.ofUInt8 b ∈ text.toList := by
  rw [bytes_eq_flatMap, List.mem_flatMap] at h
  obtain ⟨c, hc, hmem⟩ := h
  rw [← utf8EncodeChar_eq_of_mem hb hmem]
  exact hc

/-- The text and its bytes are turned alike, since a line feed is a byte of no other character. -/
theorem bytes_withReturns (text : String) :
    bytes (withReturns text) = Byte.withReturns (bytes text) := by
  have hchar (c : Char) : (if c = '\n' then ['\r', '\n'] else [c]).flatMap String.utf8EncodeChar
      = Byte.withReturns (String.utf8EncodeChar c) := by
    by_cases hc : c = '\n'
    · subst hc
      decide
    · have hmem : lineFeed ∉ String.utf8EncodeChar c := by
        intro hfeed
        exact hc (utf8EncodeChar_eq_of_mem (by decide) hfeed)
      rw [if_neg hc, Byte.withReturns_of_not_mem hmem, List.flatMap_singleton]
  rw [bytes_eq_flatMap, bytes_eq_flatMap, withReturns, String.toList_ofList, List.flatMap_assoc,
    Byte.withReturns, List.flatMap_assoc]
  exact congrArg (List.flatMap · text.toList) (funext hchar)

/-- Encoded bytes decode to the turned text when they are turned, as carriage returns are put
between characters. -/
theorem decode_withReturns {input : List UInt8} (h : Encoded input) :
    decode (Byte.withReturns input) = withReturns (decode input) := by
  obtain ⟨text, rfl⟩ := h
  rw [← bytes_withReturns, decode_bytes, decode_bytes]

end Text

/-! ### Lexemes -/

/-- A longest run ends before turned bytes too, if no carriage return belongs to it. What follows
it begins as it did, or with the carriage return of a line feed. -/
theorem LongestRun.withReturns {belongs : UInt8 → Bool} {run rest : List UInt8}
    (h : LongestRun belongs run rest) (hreturn : belongs carriageReturn = false) :
    LongestRun belongs run (Byte.withReturns rest) where
  within := h.within
  beyond := by
    intro b hb
    rcases Byte.head?_withReturns b hb with rfl | hhead
    · exact hreturn
    · exact h.beyond b hhead

/-- A byte in front of turned bytes starts a delimiter only if it did before. The only bytes that
are parted are those around the start of a line feed, and no delimiter has a line feed in it. -/
theorem startsDelimiter_withReturns {b : UInt8} {rest : List UInt8}
    (h : startsDelimiter (b :: rest) = false) :
    startsDelimiter (b :: Byte.withReturns rest) = false := by
  cases rest with
  | nil => rfl
  | cons c rest =>
      by_cases hc : c = lineFeed
      · subst hc
        rw [Byte.withReturns_lineFeed]
        simp [startsDelimiter, carriageReturn, Byte.star, Byte.slash]
      · rw [Byte.withReturns_cons hc]
        exact h

/-- Carriage returns are part of no opener and of no closer, and none is put between the two bytes
of one. So a block comment nests as it did. -/
theorem Nests.withReturns {before after : Nat} {bytes : List UInt8} (h : Nests before after bytes) :
    Nests before after (Byte.withReturns bytes) := by
  induction h with
  | done => exact .done
  | opener _ ih => exact .opener ih
  | closer _ ih => exact .closer ih
  | @other depth after b rest hb _ ih =>
      by_cases hfeed : b = lineFeed
      · subst hfeed
        exact .other rfl (.other (startsDelimiter_withReturns hb) ih)
      · rw [Byte.withReturns_cons hfeed]
        exact .other (startsDelimiter_withReturns hb) ih

namespace Lexeme

/-- What a lexeme in front of `rest` becomes. The end of a line gives its carriage return to a
line comment and to a quoted literal that it breaks off. -/
def withReturns (rest : List UInt8) : Lexeme → Lexeme
  | .quoted quote value false => .quoted quote (value ++ returnBefore rest) false
  | .lineComment isDoc content => .lineComment isDoc (content ++ returnBefore rest)
  | .blockComment isDoc content openDepth =>
    .blockComment isDoc (Byte.withReturns content) openDepth
  | lexeme => lexeme

variable {comments : Bool} {lexeme : Lexeme} {rest : List UInt8}

/-- A carriage return makes no doc comment of a block comment, and none of what was one. -/
theorem marksDocBlock_withReturns (body : List UInt8) :
    marksDocBlock (Byte.withReturns body) = marksDocBlock body := by
  match body with
  | [] => rfl
  | a :: body =>
      by_cases ha : a = lineFeed
      · subst ha
        rfl
      · rw [Byte.withReturns_cons ha]
        match body with
        | [] => rfl
        | b :: body =>
            by_cases hb : b = lineFeed
            · subst hb
              rfl
            · rw [Byte.withReturns_cons hb]
              rfl

/-- Whether the lexeme is a block comment. -/
def isBlockComment : Lexeme → Bool
  | blockComment .. => true
  | _ => false

/-- Only a block comment goes on behind a line feed. So the bytes of any other lexeme stay as they
are when they are turned. -/
theorem EndsBefore.lineFeed_not_mem (h : EndsBefore comments lexeme rest)
    (hblock : lexeme.isBlockComment = false) : lineFeed ∉ lexeme.spelling := by
  intro hmem
  cases h with
  | word hb hrun =>
      rcases List.mem_cons.mp hmem with rfl | hmem
      · cases hb
      · cases hrun.within _ hmem
  | number hb hrun =>
      rcases List.mem_cons.mp hmem with rfl | hmem
      · cases hb
      · cases hrun.within _ hmem
  | @terminated quote value _ hrun =>
      have hquote : quote.byte ≠ lineFeed := by cases quote <;> decide
      rw [spelling_terminated] at hmem
      have hvalue : lineFeed ∈ value := by simpa [hquote.symm] using hmem
      simpa [staysQuoted] using hrun.within _ hvalue
  | @unterminated quote value _ hrun hopen =>
      have hquote : quote.byte ≠ lineFeed := by cases quote <;> decide
      rw [spelling_unterminated] at hmem
      have hvalue : lineFeed ∈ value := by simpa [hquote.symm] using hmem
      simpa [staysQuoted] using hrun.within _ hvalue
  | @lineComment isDoc content _ hcomments hdoc hrun =>
      rw [spelling_lineComment, List.mem_cons, List.mem_cons, List.mem_append] at hmem
      rcases hmem with hslash | hslash | hslash | hmem
      · cases hslash
      · cases hslash
      · cases mem_docSlash hslash
      · simpa using hrun.within _ hmem
  | closedComment => cases hblock
  | openComment => cases hblock
  | single halone =>
      obtain rfl := List.mem_singleton.mp hmem
      cases halone.blank

/-- A run goes on with the carriage return in front of the line feed that ended it. This happens
to quoted text and to line comments, to which a carriage return belongs and a line feed does not. -/
theorem longestRun_append_return {belongs : UInt8 → Bool} {run : List UInt8}
    (h : LongestRun belongs run rest) (hreturn : belongs carriageReturn = true)
    (hfeed : belongs lineFeed = false) (tail : List UInt8) :
    LongestRun belongs (run ++ [carriageReturn]) (lineFeed :: tail) where
  within := by
    intro b hb
    rcases List.mem_append.mp hb with hb | hb
    · exact h.within b hb
    · rw [List.mem_singleton.mp hb]
      exact hreturn
  beyond := by
    intro b hb
    rw [← Option.some.inj hb]
    exact hfeed

/-- What a lexeme becomes ends before `tail`, and this is all that follows it but for the carriage
return that it may have taken in. The two cases of `spelling_eq` are whether it has. -/
structure Turned (comments : Bool) (lexeme : Lexeme) (rest tail : List UInt8) : Prop where
  ends : EndsBefore comments (lexeme.withReturns rest) tail
  spelling_eq : (lexeme.withReturns rest).spelling = Byte.withReturns lexeme.spelling ∧
      Byte.withReturns rest = tail ∨
    (lexeme.withReturns rest).spelling = Byte.withReturns lexeme.spelling ++ [carriageReturn] ∧
      Byte.withReturns rest = carriageReturn :: tail

/-- A quoted literal without its closing quote. At the end of the source it stays; at the end of a
line it takes in the carriage return. -/
theorem exists_turned_unterminated {quote : Quote} {value : List UInt8}
    (hrun : LongestRun (staysQuoted quote) value rest) (hopen : rest.head? ≠ some quote.byte)
    (hspelling : Byte.withReturns (Lexeme.quoted quote value false).spelling
      = (Lexeme.quoted quote value false).spelling) :
    ∃ tail, Turned comments (.quoted quote value false) rest tail := by
  have hline := eq_lineFeed_of_unterminated hrun hopen
  cases rest with
  | nil =>
      have hsame : (Lexeme.quoted quote value false).withReturns []
          = .quoted quote value false := by
        simp [withReturns, returnBefore]
      refine ⟨[], ?_, .inl ⟨?_, rfl⟩⟩
      · rw [hsame]
        exact .unterminated hrun hopen
      · rw [hsame, hspelling]
  | cons b rest =>
      obtain rfl : b = lineFeed := hline b rfl
      have hreturn : staysQuoted quote carriageReturn = true := by cases quote <;> rfl
      have hstop : staysQuoted quote lineFeed = false := by cases quote <;> rfl
      refine ⟨lineFeed :: Byte.withReturns rest, ?_, .inr ⟨?_, rfl⟩⟩
      · refine .unterminated (longestRun_append_return hrun hreturn hstop _) ?_
        intro hhead
        cases quote <;> cases hhead
      · rw [hspelling, spelling_unterminated]
        exact spelling_unterminated quote _

/-- A line comment. It takes in the carriage return of its line too, and its mark is the same,
since neither byte of the new line break is a slash. -/
theorem exists_turned_lineComment {isDoc : Bool} {content : List UInt8}
    (hcomments : comments = true)
    (hdoc : marksDocLine (docSlash isDoc ++ content ++ rest) = isDoc)
    (hrun : LongestRun (· != lineFeed) content rest)
    (hspelling : Byte.withReturns (Lexeme.lineComment isDoc content).spelling
      = (Lexeme.lineComment isDoc content).spelling) :
    ∃ tail, Turned comments (.lineComment isDoc content) rest tail := by
  have hline := eq_lineFeed_of_longestRun hrun
  cases rest with
  | nil =>
      have hsame : (Lexeme.lineComment isDoc content).withReturns []
          = .lineComment isDoc content := by
        simp [withReturns, returnBefore]
      refine ⟨[], ?_, .inl ⟨?_, rfl⟩⟩
      · rw [hsame]
        exact .lineComment hcomments hdoc hrun
      · rw [hsame, hspelling]
  | cons b rest =>
      obtain rfl : b = lineFeed := hline b rfl
      refine ⟨lineFeed :: Byte.withReturns rest, ?_, .inr ⟨?_, rfl⟩⟩
      · refine .lineComment hcomments ?_ (longestRun_append_return hrun (by decide) (by decide) _)
        -- Neither the carriage return nor the line feed is a part of the mark.
        rw [marksDocLine_append_cons (by decide)] at hdoc ⊢
        have hcontent : returnBefore (lineFeed :: rest) = [carriageReturn] := rfl
        rw [hcontent, ← List.append_assoc, marksDocLine_append_cons (by decide), hdoc]
      · rw [hspelling, spelling_lineComment, List.cons_append, List.cons_append, List.append_assoc]
        exact spelling_lineComment isDoc _

/-- A block comment that is closed, or open at the end. The carriage returns come to stand within
it, and it nests as before. -/
theorem exists_turned_blockComment {isDoc : Bool} {content : List UInt8} {openDepth : Nat}
    (h : EndsBefore comments (.blockComment isDoc content openDepth) rest) :
    ∃ tail, Turned comments (.blockComment isDoc content openDepth) rest tail := by
  have hstar : Byte.withReturns (docStar isDoc) = docStar isDoc := by cases isDoc <;> rfl
  have hcloser : Byte.withReturns [Byte.star, Byte.slash] = [Byte.star, Byte.slash] := rfl
  have hopener (body : List UInt8) : Byte.withReturns (Byte.slash :: Byte.star :: body)
      = Byte.slash :: Byte.star :: Byte.withReturns body := rfl
  cases h with
  | closedComment hcomments hdoc hnest =>
      refine ⟨Byte.withReturns rest, .closedComment hcomments ?_ ?_, .inl ⟨?_, rfl⟩⟩
      · rw [← marksDocBlock_withReturns] at hdoc
        simpa only [Byte.withReturns_append, hstar, hcloser] using hdoc
      · simpa only [Byte.withReturns_append, hcloser] using hnest.withReturns
      · rw [withReturns, spelling_closedComment, spelling_closedComment, hopener]
        simp only [Byte.withReturns_append, hstar, hcloser]
  | openComment hcomments hdoc hnest =>
      refine ⟨[], .openComment hcomments ?_ hnest.withReturns, .inl ⟨?_, rfl⟩⟩
      · rw [← marksDocBlock_withReturns] at hdoc
        simpa only [Byte.withReturns_append, hstar] using hdoc
      · rw [withReturns, spelling_openComment, spelling_openComment, hopener]
        simp only [Byte.withReturns_append, hstar]

/-- Every lexeme ends in turned bytes where it did before, or one carriage return later. There is
one case for each rule, and the hard ones have a lemma above. -/
theorem EndsBefore.exists_turned (h : EndsBefore comments lexeme rest) :
    ∃ tail, Turned comments lexeme rest tail := by
  have hplain : lexeme.isBlockComment = false →
      Byte.withReturns lexeme.spelling = lexeme.spelling := by
    intro hblock
    exact Byte.withReturns_of_not_mem (h.lineFeed_not_mem hblock)
  cases h with
  | word hb hrun =>
      exact ⟨_, .word hb (hrun.withReturns (by decide)), .inl ⟨(hplain rfl).symm, rfl⟩⟩
  | number hb hrun =>
      exact ⟨_, .number hb (hrun.withReturns (by decide)), .inl ⟨(hplain rfl).symm, rfl⟩⟩
  | terminated hrun =>
      exact ⟨Byte.withReturns rest, .terminated ⟨hrun.within, hrun.beyond⟩,
        .inl ⟨(hplain rfl).symm, rfl⟩⟩
  | unterminated hrun hopen => exact exists_turned_unterminated hrun hopen (hplain rfl)
  | lineComment hcomments hdoc hrun =>
      exact exists_turned_lineComment hcomments hdoc hrun (hplain rfl)
  | closedComment hcomments hdoc hnest =>
      exact exists_turned_blockComment (.closedComment hcomments hdoc hnest)
  | openComment hcomments hdoc hnest =>
      exact exists_turned_blockComment (.openComment hcomments hdoc hnest)
  | @single b _ halone =>
      refine ⟨Byte.withReturns rest, .single { halone with comment := ?_ },
        .inl ⟨(hplain rfl).symm, rfl⟩⟩
      intro hcomments hb
      obtain ⟨hslash, hstar⟩ := halone.comment hcomments hb
      -- What comes next is what came next, or else a carriage return.
      refine ⟨?_, ?_⟩
      · intro hhead
        rcases Byte.head?_withReturns _ hhead with hreturn | hhead
        · cases hreturn
        · exact hslash hhead
      · intro hhead
        rcases Byte.head?_withReturns _ hhead with hreturn | hhead
        · cases hreturn
        · exact hstar hhead

/-- What is scanned first in the turned bytes of a lexeme and of what follows it: the turned
lexeme, and behind it the turned rest. -/
theorem Turned.scan_eq {tail : List UInt8} (h : Turned comments lexeme rest tail) (offset : Nat) :
    scan comments offset (Byte.withReturns (lexeme.spelling ++ rest))
      = ⟨offset, lexeme.withReturns rest⟩
        :: scan comments (offset + (Byte.withReturns lexeme.spelling).length)
          (Byte.withReturns rest) := by
  rw [Byte.withReturns_append]
  rcases h.spelling_eq with ⟨hspelling, hrest⟩ | ⟨hspelling, hrest⟩
  · rw [hrest, ← hspelling, scan_spelling_append h.ends]
    rfl
  · -- The scan behind the lexeme has one blank less to pass over.
    rw [hrest, List.append_cons, ← hspelling, scan_spelling_append h.ends,
      scan_cons_of_isBlank (by decide), width, hspelling, List.length_append]
    rfl

end Lexeme

/-- What a lexeme of the bytes becomes, and where. -/
def Placed.withReturns (bytes : List UInt8) (p : Placed) : Placed where
  start := Byte.turnedOffset bytes p.start
  lexeme := p.lexeme.withReturns (bytes.drop p.stop)

/-- The lexemes of turned bytes are what the lexemes of the bytes become. The bytes in front are
part of the statement, since they say how far an offset has moved. -/
theorem Lexeme.scan_withReturns (comments : Bool) (front rest : List UInt8) :
    scan comments (Byte.withReturns front).length (Byte.withReturns rest)
      = (scan comments front.length rest).map (Placed.withReturns (front ++ rest)) := by
  generalize hoffset : front.length = offset
  induction offset, rest using scan_induction comments generalizing front with
  | nil offset => rw [Byte.withReturns_nil, scan_nil, scan_nil, List.map_nil]
  | blank offset b rest hb ih =>
      have hlength : (front ++ [b]).length = offset + 1 := by
        rw [← hoffset, List.length_append]
        rfl
      rw [scan_cons_of_isBlank hb, List.append_cons, ← ih (front ++ [b]) hlength,
        Byte.withReturns_append, List.length_append]
      by_cases hfeed : b = lineFeed
      · subst hfeed
        rw [Byte.withReturns_lineFeed, scan_cons_of_isBlank (by decide), scan_cons_of_isBlank hb]
        rfl
      · rw [Byte.withReturns_cons hfeed, scan_cons_of_isBlank hb, Byte.withReturns_cons hfeed]
        rfl
  | lexeme offset lexeme rest hends ih =>
      obtain ⟨tail, hturned⟩ := hends.exists_turned
      have hlength : (front ++ lexeme.spelling).length = offset + lexeme.width := by
        rw [← hoffset, List.length_append]
        rfl
      have hplaced : Placed.withReturns (front ++ lexeme.spelling ++ rest) ⟨offset, lexeme⟩
          = ⟨(Byte.withReturns front).length, lexeme.withReturns rest⟩ := by
        rw [Placed.withReturns, Placed.stop, ← hlength, List.drop_left, ← hoffset,
          List.append_assoc, Byte.turnedOffset_length]
      rw [scan_spelling_append hends, List.map_cons, ← List.append_assoc, hplaced,
        ← ih (front ++ lexeme.spelling) hlength, hturned.scan_eq, Byte.withReturns_append front,
        List.length_append]

end Lexis
