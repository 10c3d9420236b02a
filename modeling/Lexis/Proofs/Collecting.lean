import Lexis.Proofs.Bytewise.Literals

/-!
# `Lexis.Proofs.Collecting`: what a predicate is asked while bytes are collected

A predicate with a state of its own can tell how often it is asked, about what, and in which
order, since each question finds the state that the one before it left. `recorded` makes a
predicate write this down, and the record shows what `Lexer.collectWhile` asks. The theorems:

* `RepliesFrom.record`: a predicate that is recorded replies as it does when it is not.
* `RepliesFrom.acceptedFrom_eq`: replies up to the first rejection are all that is asked for.
* `Lexer.collectWhile_asks`: which bytes a predicate is asked about, and how what is collected
  follows from its replies.
-/

set_option autoImplicit false

namespace Lexis

/-- A byte that a predicate was asked about, and whether it accepted it. -/
structure Reply where
  byte : UInt8
  isAccepted : Bool
  deriving DecidableEq, Repr

namespace Reply

/-- The reply that takes a byte. -/
def accepted (b : UInt8) : Reply := ⟨b, true⟩

/-- The reply that turns a byte down, and ends the collecting with it. -/
def rejected (b : UInt8) : Reply := ⟨b, false⟩

/-- The bytes that were accepted, in the order of the questions. -/
def acceptedBytes (replies : List Reply) : List UInt8 := (replies.filter isAccepted).map byte

/-- The byte of a reply that takes it comes in front of the others. -/
theorem acceptedBytes_cons_accepted (b : UInt8) (later : List Reply) :
    acceptedBytes (accepted b :: later) = b :: acceptedBytes later := rfl

/-- The bytes that two rows of replies accept are those of the first row and then those of the
second. -/
theorem acceptedBytes_append (front later : List Reply) :
    acceptedBytes (front ++ later) = acceptedBytes front ++ acceptedBytes later := by
  rw [acceptedBytes, List.filter_append, List.map_append]
  rfl

/-- Replies that take every byte accept just these bytes. -/
theorem acceptedBytes_map_accepted (bytes : List UInt8) :
    acceptedBytes (bytes.map accepted) = bytes := by
  induction bytes with
  | nil => rfl
  | cons b rest ih => rw [List.map_cons, acceptedBytes_cons_accepted, ih]

end Reply

open Reply (accepted rejected acceptedBytes)

/-- Questions about bytes, each once and in order, up to and including the first byte that is
rejected. This is about the bytes and their replies only; that a predicate replies so is
`RepliesFrom`. -/
inductive AsksInOrder : List UInt8 → List Reply → Prop where
  /-- Every byte is accepted. -/
  | all (bytes : List UInt8) : AsksInOrder bytes (bytes.map accepted)
  /-- A byte is rejected, and there is no question about those behind it. -/
  | upTo (front : List UInt8) (b : UInt8) (rest : List UInt8) :
      AsksInOrder (front ++ b :: rest) (front.map accepted ++ [rejected b])

section Predicate

variable {σ : Type}

/-- The replies of a predicate to questions one after the other, each of which finds the state
that the one before it left. It says nothing about which bytes the questions are about; that is
`AsksInOrder`. -/
inductive RepliesFrom (ask : σ → UInt8 → Bool × σ) : σ → List Reply → σ → Prop where
  | nil (state : σ) : RepliesFrom ask state [] state
  | cons {state next last : σ} {b : UInt8} {isAccepted : Bool} {later : List Reply} :
      ask state b = (isAccepted, next) → RepliesFrom ask next later last →
      RepliesFrom ask state (⟨b, isAccepted⟩ :: later) last

/-- A predicate that keeps a record of its replies beside its state. It is a predicate like any
other, so that a lexer cannot treat it in another way, and the record holds each question that the
lexer put to it. -/
def recorded (ask : σ → UInt8 → Bool × σ) (recordAndState : List Reply × σ) (b : UInt8) :
    Bool × (List Reply × σ) :=
  let (isAccepted, next) := ask recordAndState.2 b
  (isAccepted, recordAndState.1 ++ [⟨b, isAccepted⟩], next)

variable {ask : σ → UInt8 → Bool × σ} {state last : σ} {bytes : List UInt8}
  {replies later : List Reply}

/-! ### Which bytes are asked about -/

namespace AsksInOrder

/-- One byte more in front, if it is accepted, is one question more in front. -/
theorem cons_accepted (b : UInt8) (h : AsksInOrder bytes later) :
    AsksInOrder (b :: bytes) (accepted b :: later) := by
  cases h with
  | all bytes => exact .all (b :: bytes)
  | upTo front c rest => exact .upTo (b :: front) c rest

/-- There is a question as soon as there is a byte. -/
theorem eq_nil (h : AsksInOrder bytes []) : bytes = [] := by
  generalize hreplies : ([] : List Reply) = replies at h
  cases h with
  | all bytes => exact List.map_eq_nil_iff.mp hreplies.symm
  | upTo front b rest => simp at hreplies

/-- The first question is about the first byte. Others follow if that is accepted, in order again,
and none follows if it is rejected. -/
theorem cons_cases {reply : Reply} (h : AsksInOrder bytes (reply :: later)) :
    ∃ rest, bytes = reply.byte :: rest ∧
      (reply.isAccepted = true ∧ AsksInOrder rest later ∨
        reply.isAccepted = false ∧ later = []) := by
  generalize hreplies : reply :: later = replies at h
  cases h with
  | all bytes =>
      obtain ⟨b, rest, rfl, rfl, rfl⟩ := List.map_eq_cons_iff.mp hreplies.symm
      exact ⟨rest, rfl, .inl ⟨rfl, .all rest⟩⟩
  | upTo front b rest =>
      cases front with
      | nil =>
          obtain ⟨rfl, rfl⟩ := List.cons.inj hreplies
          exact ⟨rest, rfl, .inr ⟨rfl, rfl⟩⟩
      | cons a front =>
          obtain ⟨rfl, rfl⟩ := List.cons.inj hreplies
          exact ⟨front ++ b :: rest, rfl, .inl ⟨rfl, .upTo front b rest⟩⟩

/-- The accepted bytes stand in front: they are all bytes, or those up to the one that was
rejected. -/
theorem acceptedBytes_isPrefix (h : AsksInOrder bytes replies) :
    acceptedBytes replies <+: bytes := by
  cases h with
  | all bytes => exact ⟨[], (List.append_nil _).trans (Reply.acceptedBytes_map_accepted bytes)⟩
  | upTo front b rest =>
      rw [Reply.acceptedBytes_append, Reply.acceptedBytes_map_accepted]
      exact (List.prefix_append_right_inj front).mpr List.nil_prefix

end AsksInOrder

/-! ### The replies of a predicate -/

/-- Whatever a predicate replies, it can be asked about bytes in order. The replies are found by
asking it, byte for byte, with the state that each question leaves. -/
theorem exists_replies (ask : σ → UInt8 → Bool × σ) (state : σ) (bytes : List UInt8) :
    ∃ replies last, AsksInOrder bytes replies ∧ RepliesFrom ask state replies last := by
  induction bytes generalizing state with
  | nil => exact ⟨[], state, .all [], .nil state⟩
  | cons b rest ih =>
      rcases hask : ask state b with ⟨isAccepted, next⟩
      cases isAccepted with
      | false => exact ⟨[rejected b], next, .upTo [] b rest, .cons hask (.nil next)⟩
      | true =>
          obtain ⟨later, last, horder, hreplies⟩ := ih next
          exact ⟨accepted b :: later, last, horder.cons_accepted b, .cons hask hreplies⟩

namespace RepliesFrom

/-- A predicate that is recorded replies as it does when it is not, and the record holds the
replies, behind those that are `done` already. -/
theorem record (h : RepliesFrom ask state replies last) (done : List Reply) :
    RepliesFrom (recorded ask) (done, state) replies (done ++ replies, last) := by
  induction h generalizing done with
  | nil state =>
      rw [List.append_nil]
      exact .nil (done, state)
  | @cons state next last b isAccepted later hask _ ih =>
      have hstep : recorded ask (done, state) b
          = (isAccepted, done ++ [⟨b, isAccepted⟩], next) := by
        rw [recorded, hask]
      rw [List.append_cons]
      exact .cons hstep (ih _)

/-- Replies up to the first rejection are all that counting the accepted bytes asks for. The count
goes up with each byte that is accepted, and the state it comes to is the one that the last reply
left. -/
theorem acceptedFrom_eq (h : RepliesFrom ask state replies last)
    (horder : AsksInOrder bytes replies) (count : Nat) :
    Lexer.acceptedFrom ask count state bytes
      = (count + (acceptedBytes replies).length, last) := by
  induction h generalizing bytes count with
  | nil state =>
      obtain rfl := horder.eq_nil
      rfl
  | @cons state next last b isAccepted later hask hlater ih =>
      obtain ⟨rest, rfl, ⟨rfl, hrest⟩ | ⟨rfl, rfl⟩⟩ := horder.cons_cases
      · rw [Lexer.acceptedFrom, hask]
        show Lexer.acceptedFrom ask (count + 1) next rest = _
        rw [ih hrest, Nat.add_assoc, Nat.add_comm 1]
        rfl
      · -- With the rejection the questions end, and it has left the last state.
        cases hlater
        rw [Lexer.acceptedFrom, hask]
        rfl

end RepliesFrom

end Predicate

namespace Lexer

variable {σ : Type} {ask : σ → UInt8 → Bool × σ} {l : Lexer}

/-- What collecting from `l` on comes to after the replies of the predicate. Each field is one
part of what a caller sees, and all of them follow from which bytes were accepted. -/
structure Collects (l : Lexer) (replies : List Reply) (collected : Collected σ) : Prop where
  /-- The lexer moves over the accepted bytes. -/
  offset_eq : collected.lexer.offset = l.offset + (acceptedBytes replies).length
  /-- It is at the end if every byte ahead was accepted. -/
  atEnd_iff : collected.atEnd = true ↔ acceptedBytes replies = l.rest
  /-- The text is that of the accepted bytes. -/
  text_eq : collected.text = Text.decode (acceptedBytes replies)
  /-- Nothing else changes. -/
  source_eq : collected.lexer.source = l.source
  config_eq : collected.lexer.config = l.config
  finished_eq : collected.lexer.finished = l.finished
  problems_eq : collected.lexer.problems = l.problems

/-- What is collected when the predicate replies to questions about the bytes ahead. The offset is
within the source (`hoffset`), and it stays addressable when the accepted bytes are passed (`hn`).
-/
theorem collectWhile_of_replies {state last : σ} {replies : List Reply}
    (hoffset : l.offset ≤ l.source.size) (horder : AsksInOrder l.rest replies)
    (hreplies : RepliesFrom ask state replies last)
    (hn : l.offset + (acceptedBytes replies).length < addressLimit) :
    l.collectWhile ask state = .ok ⟨(l.moved _ hn).isAtEnd, Text.decode (acceptedBytes replies),
      last, l.moved _ hn⟩ := by
  have haccepted := hreplies.acceptedFrom_eq horder 0
  rw [Nat.zero_add] at haccepted
  rw [collectWhile_of_accepted hoffset haccepted hn,
    ← List.prefix_iff_eq_take.mp horder.acceptedBytes_isPrefix]

/-- A lexer that has moved over the accepted bytes is what `Collects` asks for. It is at the end
only if these are all bytes ahead, since they stand in front of the others. -/
theorem collects_moved {replies : List Reply} (horder : AsksInOrder l.rest replies) (last : σ)
    (hn : l.offset + (acceptedBytes replies).length < addressLimit) :
    l.Collects replies ⟨(l.moved _ hn).isAtEnd, Text.decode (acceptedBytes replies), last,
      l.moved _ hn⟩ where
  offset_eq := rfl
  atEnd_iff := by
    have hprefix := horder.acceptedBytes_isPrefix
    rw [isAtEnd, rest_moved, List.isEmpty_iff, List.drop_eq_nil_iff]
    constructor
    · exact hprefix.eq_of_length_le
    · intro h
      exact Nat.le_of_eq (congrArg List.length h.symm)
  text_eq := rfl
  source_eq := rfl
  config_eq := rfl
  finished_eq := rfl
  problems_eq := rfl

/-- Collecting from within the source asks a predicate about the bytes ahead, about each once and
in order, up to and including the first that it rejects. A predicate that keeps a record finds
just these questions in it, and so it does when the cursor goes byte by byte. What is collected
follows from the replies, and recording them does not change it. -/
theorem collectWhile_asks (hoffset : l.offset ≤ l.source.size) (ask : σ → UInt8 → Bool × σ)
    (state : σ) :
    ∃ replies collected,
      l.collectWhile ask state = .ok collected ∧
      l.collectWhile (recorded ask) ([], state)
        = .ok { collected with state := (replies, collected.state) } ∧
      l.collectBytewise (recorded ask) ([], state)
        = l.collectWhile (recorded ask) ([], state) ∧
      AsksInOrder l.rest replies ∧
      RepliesFrom ask state replies collected.state ∧
      l.Collects replies collected := by
  obtain ⟨replies, last, horder, hreplies⟩ := exists_replies ask state l.rest
  have hn := l.offset_add_lt horder.acceptedBytes_isPrefix.length_le
  refine ⟨replies, _, collectWhile_of_replies hoffset horder hreplies hn, ?_,
    collectBytewise_eq l (recorded ask) ([], state), horder, hreplies,
    collects_moved horder last hn⟩
  exact collectWhile_of_replies hoffset horder (hreplies.record []) hn

/-- The replies to the questions about a number with two dots. -/
def secondDotReplies : List Reply :=
  [accepted 0x31, accepted Byte.dot, accepted 0x32, rejected Byte.dot]

/-- A number goes up to its second dot. The predicate is asked about that dot and changes its
state, and it is not asked about what stands behind. -/
theorem collectWhile_asks_secondDot :
    ∃ l collected,
      (start ⟨" 1.2.3", _, rfl, by decide⟩ {}).consume 1 = .ok l ∧
      l.offset ≤ l.source.size ∧
      l.collectWhile Dots.answer ⟨none, true, 1⟩ = .ok collected ∧
      AsksInOrder l.rest secondDotReplies ∧
      RepliesFrom Dots.answer ⟨none, true, 1⟩ secondDotReplies ⟨some 2, false, 4⟩ ∧
      l.Collects secondDotReplies collected := by
  let l := (start ⟨" 1.2.3", _, rfl, by decide⟩ {}).moved 1 (by decide)
  have hoffset : l.offset ≤ l.source.size := by decide
  obtain ⟨replies, collected, hcollect, hrecorded, -, horder, hreplies, hcollects⟩ :=
    collectWhile_asks hoffset Dots.answer ⟨none, true, 1⟩
  have hrun : (l.collectWhile (recorded Dots.answer) ([], ⟨none, true, 1⟩)).map (·.state)
      = .ok (secondDotReplies, ⟨some 2, false, 4⟩) := by
    rfl
  rw [hrecorded] at hrun
  obtain ⟨rfl, hstate⟩ := Prod.mk.inj (Except.ok.inj hrun)
  exact ⟨l, collected, rfl, hoffset, hcollect, horder, hstate ▸ hreplies, hcollects⟩

end Lexer

end Lexis
