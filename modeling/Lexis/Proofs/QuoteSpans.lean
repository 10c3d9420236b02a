import Lexis.Proofs.Calls
import Lexis.Proofs.Order
import Mathlib.Data.List.Forall2

/-!
# `Lexis.Proofs.QuoteSpans`: spans with and without the quotes

The span of a quoted literal leaves the quotes out or takes them in. Nothing else hangs on
this choice: a lexer moves over the same bytes and records the same problems. The theorems:

* `Lexeme.requoted_readAt`: what the choice changes at one lexeme.
* `Lexer.next_delimited`: one call under the two choices, from which
  `Lexer.drain_delimited` and `Lexer.serve_delimited` follow for a whole run and for any
  requests.
* `drains_requoted`: the two runs over a source, with their spans in order.
-/

set_option autoImplicit false

namespace Lexis

/-- A token whose span leaves quotes out, and the same token with a span that takes them in.
The bytes that come in are quotes of the literal. -/
inductive Requoted (source : Source) : Token → Token → Prop where
  /-- The span of a token that is no quoted literal stays. -/
  | same {t : Token} (hplain : t.literal?.bind Literal.isTerminated? = none) : Requoted source t t
  /-- The span of a terminated literal grows by one byte at either end. -/
  | terminated {quote : Quote} {value : String} {start length : Nat}
      (hfirst : source.bytes[start]? = some quote.byte)
      (hlast : source.bytes[start + 1 + length]? = some quote.byte) :
      Requoted source ⟨.literal (.quoted quote value true), ⟨start + 1, length⟩⟩
        ⟨.literal (.quoted quote value true), ⟨start, length + 2⟩⟩
  /-- The span of an unterminated literal grows by one byte in front. -/
  | unterminated {quote : Quote} {value : String} {start length : Nat}
      (hfirst : source.bytes[start]? = some quote.byte) :
      Requoted source ⟨.literal (.quoted quote value false), ⟨start + 1, length⟩⟩
        ⟨.literal (.quoted quote value false), ⟨start, length + 1⟩⟩

/-- The same choices, with spans that take the quotes in. -/
def Config.delimited (config : Config) : Config := { config with quoteSpan := .delimited }

/-! ### One lexeme under the two choices -/

namespace Lexeme

variable {source : Source} {config : Config} {front rest : List UInt8} {lexeme : Lexeme}
  {offset : Nat}

/-- Whether the lexeme is a quoted literal. -/
def isQuoted : Lexeme → Bool
  | quoted .. => true
  | _ => false

/-- A lexeme without quotes is read in one way under the two choices. -/
theorem readAt_delimited_of_not_quoted (h : lexeme.isQuoted = false) :
    lexeme.readAt config.delimited offset = lexeme.readAt config offset := by
  cases lexeme with
  | quoted quote value isTerminated => cases h
  | _ => rfl

/-- The choice decides about the token alone, and not about whether there is one. The problem is
the same, and so is how far a lexer moves. -/
theorem readAt_delimited (config : Config) (offset : Nat) (lexeme : Lexeme) :
    (lexeme.readAt config.delimited offset).problem = (lexeme.readAt config offset).problem ∧
    (lexeme.readAt config.delimited offset).advance = (lexeme.readAt config offset).advance ∧
    (lexeme.readAt config.delimited offset).token.isNone
      = (lexeme.readAt config offset).token.isNone := by
  cases lexeme with
  | _ => exact ⟨rfl, rfl, rfl⟩

/-- Only a quoted literal makes a token that is one. -/
theorem isTerminated?_payload_of_not_quoted (h : lexeme.isQuoted = false) :
    lexeme.payload.literal?.bind Literal.isTerminated? = none := by
  cases lexeme with
  | word letters =>
      simp only [payload, wordPayload]
      split
      · rfl
      · rfl
  | number run =>
      rw [payload]
      split
      · rfl
      · rfl
  | quoted quote value isTerminated => cases h
  | single b =>
      rw [payload, singlePayload]
      split
      · rfl
      · rfl
  | _ => rfl

/-- The token of a quoted literal under the two choices. The literal starts and ends with its
quote, so that the bytes between the two spans are quotes. -/
theorem requoted_quoted {quote : Quote} {value : List UInt8} {isTerminated : Bool}
    (h : source.bytes = front ++ ((Lexeme.quoted quote value isTerminated).spelling ++ rest)) :
    Requoted source
      ⟨.literal (.quoted quote (Text.decode value) isTerminated), ⟨front.length + 1, value.length⟩⟩
      ⟨.literal (.quoted quote (Text.decode value) isTerminated),
        ⟨front.length, (Lexeme.quoted quote value isTerminated).width⟩⟩ := by
  have hfirst : source.bytes[front.length]? = some quote.byte := by
    rw [h, List.getElem?_append_right (Nat.le_refl _), Nat.sub_self]
    rfl
  cases isTerminated with
  | true =>
      have hbytes : source.bytes = (front ++ quote.byte :: value) ++ quote.byte :: rest := by
        rw [h, spelling_terminated]
        simp
      have hlength : front.length + 1 + value.length = (front ++ quote.byte :: value).length := by
        rw [List.length_append, List.length_cons]
        omega
      have hlast : source.bytes[front.length + 1 + value.length]? = some quote.byte := by
        rw [hbytes, hlength, List.getElem?_append_right (Nat.le_refl _), Nat.sub_self]
        rfl
      rw [width_terminated]
      exact .terminated hfirst hlast
  | false =>
      rw [width_unterminated]
      exact .unterminated hfirst

/-- The token of a lexeme under the two choices, or none under both. `h` places the lexeme in the
source, where its quotes are looked up. -/
theorem requoted_readAt (hconfig : config.quoteSpan = .content)
    (h : source.bytes = front ++ (lexeme.spelling ++ rest)) :
    Option.Rel (Requoted source) (lexeme.readAt config front.length).token
      (lexeme.readAt config.delimited front.length).token := by
  cases hquoted : lexeme.isQuoted with
  | false =>
      rw [readAt_delimited_of_not_quoted hquoted]
      cases htoken : (lexeme.readAt config front.length).token with
      | none => exact .none
      | some t =>
          rw [eq_of_token htoken]
          exact .some (.same (isTerminated?_payload_of_not_quoted hquoted))
  | true =>
      cases lexeme with
      | quoted quote value isTerminated =>
          obtain ⟨comments, malformedNumber, quoteSpan⟩ := config
          obtain rfl : quoteSpan = .content := hconfig
          exact .some (requoted_quoted h)
      | _ => cases hquoted

end Lexeme

/-! ### One call, and many -/

namespace Lexer

variable {l m : Lexer}

/-- The same lexer under the choice that spans take the quotes in. -/
def delimited (l : Lexer) : Lexer := { l with config := l.config.delimited }

/-- A lexeme ahead stands in the source where the blanks end. The offset there is within the
source, though the lexer may have been past its end before. -/
theorem exists_bytes_eq_of_lexeme? {lexeme : Lexeme} (h : l.lexeme? = some lexeme) :
    ∃ front rest, l.source.bytes = front ++ (lexeme.spelling ++ rest) ∧
      front.length = l.skipBlanks.offset := by
  have hrest : l.skipBlanks.rest = l.source.bytes.drop l.skipBlanks.offset := l.skipBlanks.rest_eq
  have hsplit := Lexeme.spelling_append_drop h
  refine ⟨l.source.bytes.take l.skipBlanks.offset, l.skipBlanks.rest.drop lexeme.width, ?_, ?_⟩
  · rw [hsplit, hrest, List.take_append_drop]
  · -- No lexeme is empty, so that the offset lies within the source.
    have hpos := Lexeme.length_spelling_pos h
    have hwidth : lexeme.width ≤ l.skipBlanks.rest.length :=
      (Lexeme.spelling_isPrefix h).length_le
    rw [hrest, List.length_drop] at hwidth
    rw [List.length_take]
    omega

/-- The outcomes of a reading under the two choices lead to the same state: what is recorded and
how far the lexer moves does not depend on the choice. -/
theorem record_delimited (l : Lexer) {lexeme : Lexeme} {offset : Nat}
    (h : l.offset + (lexeme.readAt l.config offset).advance < addressLimit)
    (h' : l.delimited.offset + (lexeme.readAt l.config.delimited offset).advance < addressLimit) :
    (l.delimited.moved _ h').record (lexeme.readAt l.config.delimited offset)
      = ((l.moved _ h).record (lexeme.readAt l.config offset)).delimited := by
  obtain ⟨hproblem, hadvance, hnone⟩ := Lexeme.readAt_delimited l.config offset lexeme
  refine ext rfl rfl (congrArg (l.offset + ·) hadvance) hnone ?_
  rw [← Array.toList_inj, problems_record, hproblem]
  exact (problems_record _ _).symm

/-- One call finds the same token but for its span, and comes to the same state. Only a quoted
literal has another span, and the bytes that make the difference are its quotes. -/
theorem next_delimited {answer : Option Token} (hconfig : l.config.quoteSpan = .content)
    (h : l.next = .ok (answer, m)) :
    m.source = l.source ∧ m.config = l.config ∧
      ∃ answer', l.delimited.next = .ok (answer', m.delimited) ∧
        Option.Rel (Requoted l.source) answer answer' := by
  cases hfinished : l.finished with
  | true =>
      rw [next_of_finished hfinished, Except.ok.injEq, Prod.mk.injEq] at h
      obtain ⟨rfl, rfl⟩ := h
      have hdelimited : l.delimited.finished = true := hfinished
      exact ⟨rfl, rfl, none, next_of_finished hdelimited, .none⟩
  | false =>
      -- Both look for a lexeme at the same bytes.
      have hdelimited : l.delimited.finished = false := hfinished
      have hsame : l.delimited.lexeme? = l.lexeme? := rfl
      cases hlexeme : l.lexeme? with
      | none =>
          rw [next_of_none hfinished hlexeme, Except.ok.injEq, Prod.mk.injEq] at h
          obtain ⟨rfl, rfl⟩ := h
          exact ⟨rfl, rfl, none, next_of_none hdelimited (hsame.trans hlexeme), .none⟩
      | some lexeme =>
          rw [next_of_some hfinished hlexeme, Except.ok.injEq, Prod.mk.injEq] at h
          obtain ⟨rfl, rfl⟩ := h
          refine ⟨rfl, rfl, (lexeme.readAt l.config.delimited l.skipBlanks.offset).token, ?_, ?_⟩
          · rw [next_of_some hdelimited (hsame.trans hlexeme)]
            refine congrArg Except.ok (Prod.ext rfl ?_)
            exact l.skipBlanks.record_delimited (offset_add_advance_lt hlexeme) _
          · obtain ⟨front, rest, hbytes, hoffset⟩ := exists_bytes_eq_of_lexeme? hlexeme
            rw [← hoffset]
            exact Lexeme.requoted_readAt hconfig hbytes

/-- A run finds the same tokens but for their spans, and ends in the same state. The induction is
along its calls, and the source and the choices are the same behind each. -/
theorem drain_delimited {tokens : List Token} (hconfig : l.config.quoteSpan = .content)
    (h : l.drain = .ok (tokens, m)) :
    ∃ tokens', l.delimited.drain = .ok (tokens', m.delimited) ∧
      List.Forall₂ (Requoted l.source) tokens tokens' := by
  refine drain_induction (motive := fun l tokens last => l.config.quoteSpan = .content →
    ∃ tokens', l.delimited.drain = .ok (tokens', last.delimited) ∧
      List.Forall₂ (Requoted l.source) tokens tokens') ?none ?some h hconfig
  case none =>
    intro l last hnext hconfig
    obtain ⟨-, -, answer, hnext', hanswer⟩ := next_delimited hconfig hnext
    cases hanswer
    exact ⟨[], drain_of_none hnext', .nil⟩
  case some =>
    intro l behind t tokens last hnext _ ih hconfig
    obtain ⟨hsource, hsame, answer, hnext', hanswer⟩ := next_delimited hconfig hnext
    cases hanswer with
    | some ht =>
        obtain ⟨tokens', hdrain, htokens⟩ := ih (hsame ▸ hconfig)
        rw [hsource] at htokens
        refine ⟨_ :: tokens', ?_, .cons ht htokens⟩
        rw [drain_of_some hnext', hdrain]
        rfl

/-- Requests get the same answers but for the spans of tokens, and leave the same state. The
problems that are taken on the way are the same too, request for request. -/
theorem serve_delimited (requests : List Request) (hconfig : l.config.quoteSpan = .content) :
    ∃ served answers, l.serve requests = .ok served ∧
      l.delimited.serve requests = .ok ⟨answers, served.taken, served.behind.delimited⟩ ∧
      List.Forall₂ (Option.Rel (Requoted l.source)) served.answers answers := by
  induction requests generalizing l with
  | nil => exact ⟨⟨[], [], l⟩, [], rfl, rfl, .nil⟩
  | cons request later ih =>
      cases request with
      | problems =>
          have hsame : l.takeProblems.2.config.quoteSpan = .content := hconfig
          obtain ⟨served, answers, hserve, hserve', hanswers⟩ := ih hsame
          -- Taking the problems and choosing the spans can change places.
          have htaken : l.delimited.takeProblems.2.serve later = _ := hserve'
          exact ⟨_, answers, serve_problems hserve, serve_problems htaken, hanswers⟩
      | token =>
          obtain ⟨⟨answer, behind⟩, hnext⟩ := l.next_eq_ok
          obtain ⟨hsource, hsame, answer', hnext', hanswer⟩ := next_delimited hconfig hnext
          obtain ⟨served, answers, hserve, hserve', hanswers⟩ := ih (hsame ▸ hconfig)
          rw [hsource] at hanswers
          exact ⟨_, answer' :: answers, serve_token hnext hserve, serve_token hnext' hserve',
            .cons hanswer hanswers⟩

end Lexer

/-- The runs under the two choices move in step. After any requests their lexers differ in the
choice alone, and the tokens that they found differ in the spans of quoted literals alone. In both
runs the spans are in order, the ones without quotes included, which may be empty. -/
theorem drains_requoted (source : Source) (comments : Bool) (malformedNumber : MalformedNumber) :
    ∃ tokens tokens' last,
      (Lexer.start source ⟨comments, malformedNumber, .content⟩).drain = .ok (tokens, last) ∧
      (Lexer.start source ⟨comments, malformedNumber, .delimited⟩).drain
        = .ok (tokens', last.delimited) ∧
      List.Forall₂ (Requoted source) tokens tokens' ∧
      InOrder (tokens.map Token.span) ∧ InOrder (tokens'.map Token.span) ∧
      ∀ requests, ∃ served answers,
        (Lexer.start source ⟨comments, malformedNumber, .content⟩).serve requests = .ok served ∧
        (Lexer.start source ⟨comments, malformedNumber, .delimited⟩).serve requests
          = .ok ⟨answers, served.taken, served.behind.delimited⟩ ∧
        List.Forall₂ (Option.Rel (Requoted source)) served.answers answers := by
  have hcontent : (Lexer.start source ⟨comments, malformedNumber, .content⟩).config.quoteSpan
      = .content := rfl
  obtain ⟨last, hdrain, -⟩ := Lexer.drain_start source ⟨comments, malformedNumber, .content⟩
  obtain ⟨tokens', hdrain', htokens⟩ := Lexer.drain_delimited hcontent hdrain
  obtain ⟨heq, -⟩ := Lexer.eq_of_drain_start hdrain'
  refine ⟨_, tokens', last, hdrain, hdrain', htokens, inOrder_tokens _ 0 source.bytes, ?_, ?_⟩
  · rw [heq]
    exact inOrder_tokens _ 0 source.bytes
  · intro requests
    exact Lexer.serve_delimited requests hcontent

end Lexis
