import Lexis.Lexer.Run

/-!
# `Lexis.Proofs.Bytewise.Cursor`: a cursor with every step checked

`Lexer.next` reads a whole lexeme off the bytes ahead and then places it, and
`Lexer.collectWhile` counts the bytes it moves over. Here a cursor goes byte by byte instead: it
looks at a byte, moves over it, and takes the difference of two offsets or the bytes between
them. Each of these steps faults where it has no answer. The theorems:

* `Lexer.consume_of_le`, `Lexer.peekAt_eq_ok`, `Lexer.spanBefore_eq_ok`,
  `Lexer.bytesBetween_eq_ok`: where the single steps have an answer.
* `Lexer.walk_eq_ok`: moving on while a predicate accepts ends behind the accepted bytes.
* `Lexer.collectBytewise_eq`: collecting byte by byte is collecting.
-/

set_option autoImplicit false

namespace Lexis

/-- The offset `length` bytes in front of `offset`. It is the difference of two words, and faults
where it would be negative. -/
def Fault.offsetBefore (offset length : Nat) : Checked Nat :=
  if length ≤ offset then .ok (offset - length) else .error (.beforeSource offset length)

/-- A length that does not reach over the start can be taken away. Going back further is a fault,
as an offset below zero is none. -/
theorem Fault.offsetBefore_eq_ok {offset length : Nat} (h : length ≤ offset) :
    offsetBefore offset length = .ok (offset - length) := by
  rw [offsetBefore, if_pos h]

/-- An operation that has its answer hands it on. Runs of checked steps are gone through with
this, one step after the other, once each step is known to succeed. -/
theorem Checked.ok_bind {α β : Type} (a : α) (next : α → Checked β) :
    ((.ok a : Checked α) >>= next) = next a := rfl

namespace Lexer

variable {l : Lexer} {n : Nat}

/-! ### The steps of a cursor -/

/-- The cursor moves over bytes that are ahead. The bound on sources leaves an address for it. -/
theorem consume_of_le (h : n ≤ l.rest.length) :
    l.consume n = .ok (l.moved n (l.offset_add_lt h)) := consume_eq_ok _

/-- Moving adds to the offset. Stated for rewriting where the lexer in question is a long term. -/
theorem offset_moved (h : l.offset + n < addressLimit) : (l.moved n h).offset = l.offset + n := rfl

/-- Moving takes bytes off the front of those ahead. -/
theorem rest_moved (h : l.offset + n < addressLimit) : (l.moved n h).rest = l.rest.drop n := rfl

/-- Two moves are one. The proof that the sum is addressable is the one for the second move, with
the sums put in another way. -/
theorem moved_moved {a b : Nat} (ha : l.offset + a < addressLimit)
    (hb : (l.moved a ha).offset + b < addressLimit) :
    (l.moved a ha).moved b hb
      = l.moved (a + b) (Nat.lt_of_le_of_lt (Nat.le_of_eq (Nat.add_assoc _ _ _).symm) hb) :=
  ext rfl rfl (Nat.add_assoc _ _ _) rfl rfl

/-- A move depends on the distance only, and not on how its sum is written. With this, distances
can be rewritten in spite of the proofs about them. -/
theorem moved_congr {a b : Nat} (hab : a = b) (ha : l.offset + a < addressLimit) :
    l.moved a ha = l.moved b (hab ▸ ha) := by
  subst hab
  rfl

/-- Moving over nothing leaves the lexer as it is. -/
theorem moved_zero : l.moved 0 l.offset_lt = l := ext rfl rfl rfl rfl rfl

/-- A move that succeeds takes bytes off those ahead, if there are any and the move is not empty.
Walks that move in each step end by this. -/
theorem length_rest_of_consume {m : Lexer} (h : l.consume n = .ok m) (hpos : 0 < n)
    (hrest : l.rest ≠ []) : m.rest.length < l.rest.length := by
  have hlength := List.length_pos_iff.mpr hrest
  rw [consume] at h
  split at h
  · cases h
    show (l.rest.drop n).length < _
    rw [List.length_drop]
    omega
  · cases h

/-- Looking ahead gives the byte there, or none past the end, as long as the place is addressable.
-/
theorem peekAt_eq_ok (h : l.offset + n < addressLimit) : l.peekAt n = .ok l.rest[n]? := by
  rw [peekAt, Fault.offsetAfter_eq_ok h]
  rfl

/-- Looking past the last address faults. Close to it, this can happen to a lexer that was moved
far past the end of its source. -/
theorem peekAt_eq_error (h : addressLimit ≤ l.offset + n) :
    l.peekAt n = .error (.unaddressable l.offset n) := by
  rw [peekAt, Fault.offsetAfter_eq_error h]
  rfl

/-- The bytes in front of the cursor have a span when there are as many. Its end is the cursor, so
it is addressable. -/
theorem spanBefore_eq_ok (h : n ≤ l.offset) : l.spanBefore n = .ok ⟨l.offset - n, n⟩ := by
  rw [spanBefore, if_pos h, Span.make_eq_ok]
  rw [Nat.sub_add_cancel h]
  exact l.offset_lt

/-- Otherwise the span would start in front of the source, and asking for it faults. -/
theorem spanBefore_eq_error (h : l.offset < n) :
    l.spanBefore n = .error (.beforeSource l.offset n) := by
  rw [spanBefore, if_neg (Nat.not_le.mpr h)]

/-- The bytes of the source from `start` up to `stop`. They are cut out as a slice is: it faults
on a range that ends past the source, and on one that runs backwards. -/
def bytesBetween (l : Lexer) (start stop : Nat) : Checked (List UInt8) :=
  if l.source.size < stop then .error (.pastSource stop l.source.size)
  else do
    let _ ← Fault.offsetBefore stop start
    return l.source.slice start stop

/-- A range within the source that runs forwards has its bytes. Both conditions are checked where
a range is cut, and here they hold. -/
theorem bytesBetween_eq_ok {start stop : Nat} (hle : start ≤ stop) (hstop : stop ≤ l.source.size) :
    l.bytesBetween start stop = .ok (l.source.slice start stop) := by
  rw [bytesBetween, if_neg (Nat.not_lt.mpr hstop), Fault.offsetBefore_eq_ok hle]
  rfl

/-- The slice from the cursor on is the front of the bytes ahead. -/
theorem slice_offset (l : Lexer) (n : Nat) :
    l.source.slice l.offset (l.offset + n) = l.rest.take n := by
  rw [Source.slice, l.rest_eq, Nat.add_sub_cancel_left]

/-- Where bytes are ahead, the cursor is within the source. Elsewhere it may be past the end. -/
theorem offset_lt_size (h : l.rest ≠ []) : l.offset < l.source.size := by
  have hlength := List.length_pos_iff.mpr h
  have hrest := l.length_rest
  omega

/-- Bytes ahead do not lead out of the source. A cursor that was within is so behind them, at the
end of the source at the latest. -/
theorem moved_within (hle : n ≤ l.rest.length) (hoffset : l.offset ≤ l.source.size)
    (hn : l.offset + n < addressLimit) : (l.moved n hn).offset ≤ (l.moved n hn).source.size := by
  have hrest := l.length_rest
  show l.offset + n ≤ l.source.size
  omega

/-- The bytes ahead up to some distance, as any lexer of the source has them. A lexer cuts them
out when it has moved over them, so that `m` is another one than `l`. -/
theorem bytesBetween_ahead {m : Lexer} (hsource : m.source = l.source) (hle : n ≤ l.rest.length)
    (hoffset : l.offset ≤ l.source.size) :
    m.bytesBetween l.offset (l.offset + n) = .ok (l.rest.take n) := by
  have hrest := l.length_rest
  have hstop : l.offset + n ≤ m.source.size := by
    rw [hsource]
    omega
  rw [bytesBetween_eq_ok (Nat.le_add_right _ _) hstop, hsource, slice_offset]

/-- All the bytes ahead. -/
theorem bytesBetween_size (hoffset : l.offset ≤ l.source.size) :
    l.bytesBetween l.offset l.source.size = .ok l.rest := by
  have hahead := bytesBetween_ahead (l := l) (m := l) rfl (Nat.le_refl l.rest.length) hoffset
  rwa [l.length_rest, Nat.add_sub_cancel' hoffset, ← length_rest, List.take_length] at hahead

/-- Within the source there is room to look one byte further, as the bound on sources leaves some
addresses behind them. -/
theorem offset_succ_lt (h : l.offset ≤ l.source.size) : l.offset + 1 < addressLimit := by
  have hlimit : addressLimit = Source.sizeLimit + Source.sizeLimit := by decide
  have hpositive : 1 < Source.sizeLimit := by decide
  have hsource := l.source.size_lt
  omega

/-- A byte is there if one was found. The mark of a doc comment and the closing quote are moved
over by such a flag, read as a number. -/
theorem toNat_le_length {found : Bool} {bytes : List UInt8} (h : bytes = [] → found = false) :
    found.toNat ≤ bytes.length := by
  cases bytes with
  | nil =>
      rw [h rfl]
      exact Nat.le_refl 0
  | cons b rest => exact Nat.le_trans found.toNat_le (Nat.succ_le_succ (Nat.zero_le _))

/-! ### Moving on while a predicate accepts -/

/-- The lexer in front of the first byte that the predicate rejects, and the state of the
predicate there. It is asked about one byte after the other, and may fault. So may looking at the
byte and moving over it, and the walk stops at the first fault. -/
def walk {σ : Type} (ask : σ → UInt8 → Checked (Bool × σ)) (state : σ) (l : Lexer) :
    Checked (σ × Lexer) :=
  match _hpeek : l.peek with
  | .error fault => .error fault
  | .ok none => .ok (state, l)
  | .ok (some b) =>
    match ask state b with
    | .error fault => .error fault
    | .ok (false, state) => .ok (state, l)
    | .ok (true, state) =>
      match _hconsume : l.consume 1 with
      | .error fault => .error fault
      | .ok behind => walk ask state behind
termination_by l.rest.length
decreasing_by
  refine length_rest_of_consume _hconsume Nat.one_pos ?_
  intro hrest
  rw [peek_eq_ok, hrest] at _hpeek
  cases _hpeek

section Walk

variable {σ : Type} {ask : σ → UInt8 → Checked (Bool × σ)} {state next : σ} {b : UInt8}
  {rest : List UInt8}

/-- Where no byte is ahead the walk is over, and the predicate is not asked. -/
theorem walk_of_nil (hrest : l.rest = []) : l.walk ask state = .ok (state, l) := by
  rw [walk]
  split
  · next hpeek => simp [peek_eq_ok] at hpeek
  · rfl
  · next hpeek => simp [peek_eq_ok, hrest] at hpeek

/-- The walk stays in front of a byte that is rejected, and keeps the state that rejecting it
left. -/
theorem walk_of_reject (hrest : l.rest = b :: rest) (hask : ask state b = .ok (false, next)) :
    l.walk ask state = .ok (next, l) := by
  rw [walk]
  split
  · next hpeek => simp [peek_eq_ok] at hpeek
  · next hpeek => simp [peek_eq_ok, hrest] at hpeek
  · next c hpeek =>
      obtain rfl : b = c := by simpa [peek_eq_ok, hrest] using hpeek
      rw [hask]

/-- A byte that is accepted is moved over, and the walk goes on behind it, in the state that the
predicate left. -/
theorem walk_of_accept (hrest : l.rest = b :: rest) (hask : ask state b = .ok (true, next))
    (hmove : l.offset + 1 < addressLimit) :
    l.walk ask state = (l.moved 1 hmove).walk ask next := by
  rw [walk]
  split
  · next hpeek => simp [peek_eq_ok] at hpeek
  · next hpeek => simp [peek_eq_ok, hrest] at hpeek
  · next c hpeek =>
      obtain rfl : b = c := by simpa [peek_eq_ok, hrest] using hpeek
      rw [hask]
      dsimp only
      split
      · next hconsume => simp [consume_eq_ok hmove] at hconsume
      · next behind hconsume =>
          obtain rfl : l.moved 1 hmove = behind := by simpa [consume_eq_ok hmove] using hconsume
          rfl

end Walk

/-- The count of accepted bytes can start anywhere. The state does not depend on it, and what was
counted before is added. -/
theorem acceptedFrom_eq {σ : Type} (ask : σ → UInt8 → Bool × σ) (accepted : Nat) (state : σ)
    (bytes : List UInt8) :
    acceptedFrom ask accepted state bytes
      = (accepted + (acceptedFrom ask 0 state bytes).1, (acceptedFrom ask 0 state bytes).2) := by
  induction bytes generalizing accepted state with
  | nil => rfl
  | cons b rest ih =>
      rw [acceptedFrom, acceptedFrom]
      split
      · next state _ =>
          rw [ih (accepted + 1), ih (0 + 1)]
          simp only [Nat.zero_add, Nat.add_assoc]
      · rfl

/-- No more bytes are accepted than there are, so that the cursor stays within the source. -/
theorem acceptedFrom_le {σ : Type} (ask : σ → UInt8 → Bool × σ) (state : σ)
    (bytes : List UInt8) : (acceptedFrom ask 0 state bytes).1 ≤ bytes.length := by
  induction bytes generalizing state with
  | nil => exact Nat.le_refl 0
  | cons b rest ih =>
      rw [acceptedFrom]
      split
      · next state _ =>
          rw [acceptedFrom_eq, List.length_cons]
          have hle := ih state
          dsimp only
          omega
      · exact Nat.zero_le _

/-- Moving on ends behind the accepted bytes. Where the predicate has a state that goes with the
offset, it needs to have an answer only then: `Goes` is what the walk keeps up between the offset
and the state, and `hask` that one step does. The induction is on the bytes ahead. -/
theorem walk_eq_ok {σ : Type} {ask : σ → UInt8 → Checked (Bool × σ)}
    {answer : σ → UInt8 → Bool × σ} {Goes : Nat → σ → Prop}
    (hask : ∀ offset state b, Goes offset state → offset + 1 < addressLimit →
      ask state b = .ok (answer state b) ∧
        ((answer state b).1 = true → Goes (offset + 1) (answer state b).2))
    {state next : σ} {bytes : List UInt8} (hrest : l.rest = bytes) (hgoes : Goes l.offset state)
    (haccepted : acceptedFrom answer 0 state bytes = (n, next)) (hn : l.offset + n < addressLimit) :
    l.walk ask state = .ok (next, l.moved n hn) := by
  induction bytes generalizing l state n with
  | nil =>
      cases haccepted
      rw [walk_of_nil hrest, moved_zero]
  | cons b rest ih =>
      have hone : 1 ≤ l.rest.length := by
        rw [hrest]
        exact Nat.succ_le_succ (Nat.zero_le _)
      have hmove := l.offset_add_lt hone
      obtain ⟨hanswer, hnext⟩ := hask l.offset state b hgoes hmove
      rcases hpair : answer state b with ⟨accepts, later⟩
      rw [hpair] at hanswer hnext
      rw [acceptedFrom, hpair] at haccepted
      cases accepts with
      | false =>
          cases haccepted
          rw [walk_of_reject hrest hanswer, moved_zero]
      | true =>
          have hbehind : (l.moved 1 hmove).rest = rest := by
            show l.rest.drop 1 = rest
            rw [hrest]
            rfl
          rcases hlast : acceptedFrom answer 0 later rest with ⟨m, last⟩
          have hcount : (1 + m, last) = (n, next) := by
            rw [← haccepted]
            show _ = acceptedFrom answer (0 + 1) later rest
            rw [acceptedFrom_eq, hlast]
          obtain ⟨rfl, rfl⟩ := Prod.mk.inj hcount
          have hm : (l.moved 1 hmove).offset + m < addressLimit :=
            Nat.lt_of_le_of_lt (Nat.le_of_eq (Nat.add_assoc _ _ _)) hn
          rw [walk_of_accept hrest hanswer hmove, ih hbehind (hnext rfl) hlast hm, moved_moved]

/-- Moving on with a predicate that does not fault. Nothing has to be kept up for it, unlike for
one that computes offsets of its own. -/
theorem walk_pure {σ : Type} {ask : σ → UInt8 → Bool × σ} {state next : σ}
    (haccepted : acceptedFrom ask 0 state l.rest = (n, next)) (hn : l.offset + n < addressLimit) :
    l.walk (fun state b => .ok (ask state b)) state = .ok (next, l.moved n hn) := by
  have hask (offset : Nat) (state : σ) (b : UInt8) (_ : True) (_ : offset + 1 < addressLimit) :
      (.ok (ask state b) : Checked (Bool × σ)) = .ok (ask state b) ∧
        ((ask state b).1 = true → True) := ⟨rfl, fun _ => trivial⟩
  exact walk_eq_ok hask rfl trivial haccepted hn

/-- A predicate without a state accepts the longest run of its bytes, whichever byte it is asked
about first. -/
theorem acceptedFrom_stateless (belongs : UInt8 → Bool) (bytes : List UInt8) :
    acceptedFrom (fun _ b => (belongs b, ())) 0 () bytes
      = ((bytes.takeWhile belongs).length, ()) := by
  induction bytes with
  | nil => rfl
  | cons b rest ih =>
      rw [acceptedFrom, List.takeWhile_cons]
      cases belongs b with
      | false => rfl
      | true =>
          dsimp only
          rw [acceptedFrom_eq, ih, if_pos rfl, List.length_cons, Nat.add_comm]

/-! ### Collecting bytes -/

/-- Collecting moves over the bytes that the predicate accepts. Both ways to collect are compared
by this, and so the definition is opened here only. -/
theorem collectWhile_of_accepted {σ : Type} {ask : σ → UInt8 → Bool × σ} {state next : σ}
    (hoffset : l.offset ≤ l.source.size)
    (haccepted : acceptedFrom ask 0 state l.rest = (n, next)) (hn : l.offset + n < addressLimit) :
    l.collectWhile ask state
      = .ok ⟨(l.moved n hn).isAtEnd, Text.decode (l.rest.take n), next, l.moved n hn⟩ := by
  rw [collectWhile, if_neg (Nat.not_lt.mpr hoffset), haccepted]
  dsimp only
  rw [consume_eq_ok hn]
  rfl

/-- The bytes that a predicate accepts, its state behind them, and the lexer there. The bytes are
cut out of the source by the two offsets once the walk is over. -/
def collect {σ : Type} (ask : σ → UInt8 → Checked (Bool × σ)) (state : σ) (l : Lexer) :
    Checked (List UInt8 × σ × Lexer) := do
  let (state, behind) ← l.walk ask state
  let bytes ← behind.bytesBetween l.offset behind.offset
  return (bytes, state, behind)

/-- Collecting gives the bytes that were moved over. The cursor is still within the source behind
them (`hle`), so that they can be cut out. -/
theorem collect_eq_ok {σ : Type} {ask : σ → UInt8 → Checked (Bool × σ)} {state next : σ}
    {hn : l.offset + n < addressLimit} (hwalk : l.walk ask state = .ok (next, l.moved n hn))
    (hle : l.offset + n ≤ l.source.size) :
    l.collect ask state = .ok (l.rest.take n, next, l.moved n hn) := by
  have hrest := l.length_rest
  rw [collect, hwalk, Checked.ok_bind]
  dsimp only
  rw [offset_moved, bytesBetween_ahead (l := l) (m := l.moved n hn) rfl (by omega) (by omega)]
  rfl

/-- The bytes that a predicate accepts, collected one by one. -/
def collectBytewise {σ : Type} (l : Lexer) (ask : σ → UInt8 → Bool × σ) (state : σ) :
    Checked (Collected σ) := do
  let (bytes, state, behind) ← l.collect (fun state b => .ok (ask state b)) state
  return { atEnd := behind.isAtEnd, text := Text.decode bytes, state := state, lexer := behind }

/-- Collecting byte by byte is collecting, and faults where that does: past the end of the source,
where the slice that would hold the bytes does not exist. Everywhere else both succeed. -/
theorem collectBytewise_eq {σ : Type} (l : Lexer) (ask : σ → UInt8 → Bool × σ) (state : σ) :
    l.collectBytewise ask state = l.collectWhile ask state := by
  rcases haccepted : acceptedFrom ask 0 state l.rest with ⟨n, next⟩
  have hlength := l.length_rest
  have hle : n ≤ l.rest.length := by
    have haccepted' := acceptedFrom_le ask state l.rest
    rwa [haccepted] at haccepted'
  have hwalk := walk_pure haccepted (l.offset_add_lt hle)
  rw [collectBytewise]
  by_cases hpast : l.source.size < l.offset
  · -- No byte is ahead, and there is no text where the cursor is.
    obtain rfl : n = 0 := by omega
    rw [moved_zero] at hwalk
    rw [collectWhile, if_pos hpast, collect, hwalk, Checked.ok_bind]
    dsimp only
    rw [bytesBetween, if_pos hpast]
    rfl
  · have hstop : l.offset + n ≤ l.source.size := by omega
    rw [collect_eq_ok hwalk hstop, Checked.ok_bind,
      collectWhile_of_accepted (by omega) haccepted (l.offset_add_lt hle)]
    rfl

end Lexer

end Lexis
