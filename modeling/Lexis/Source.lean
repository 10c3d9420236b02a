import Lexis.Fault
import Lexis.Text.Utf8

/-!
# `Lexis.Source`: texts with their bytes

A source is a text together with the bytes of its UTF-8 form. All offsets into it count
bytes. A source has fewer than `Source.sizeLimit` bytes, so that every offset up to its end
is addressable, and so is the sum of any two.

* `Source.ext`: a source is determined by its text.
* `Source.length_bytes`: the size is the number of bytes.
* `Source.textBetween?` gives the text of a range, if there is such a range and it cuts no
  character.
-/

set_option autoImplicit false

namespace Lexis

/-- Sources have fewer bytes than this, which is half as many as there are addresses. -/
def Source.sizeLimit : Nat := addressLimit / 2

/-- A text and its bytes. The bytes are kept beside the text because scanning walks over bytes,
and the bound on their number keeps every offset of the source addressable. -/
structure Source where
  text : String
  bytes : List UInt8
  bytes_eq : bytes = Text.bytes text
  length_lt : bytes.length < Source.sizeLimit

namespace Source

/-- The source with a text, if the text is not too long. No machine holds a text as long as the
bound, so this fails on no text that could be read. -/
def ofString? (text : String) : Option Source :=
  let bytes := Text.bytes text
  if h : bytes.length < sizeLimit then some ⟨text, bytes, rfl, h⟩ else none

/-- The source without text. -/
def empty : Source := ⟨"", [], rfl, by decide⟩

instance : Inhabited Source := ⟨empty⟩

/-- The number of bytes. -/
def size (s : Source) : Nat := s.text.utf8ByteSize

/-- The bytes from `start` up to, and without, `stop`. -/
def slice (s : Source) (start stop : Nat) : List UInt8 := (s.bytes.drop start).take (stop - start)

/-- The text from `start` up to `stop`, if that is a range of whole characters. There is none for
a range that runs backwards or past the end, nor for one with an end inside a character. -/
def textBetween? (s : Source) (start stop : Nat) : Option String :=
  let ahead := s.bytes.drop start
  if start ≤ stop && stop ≤ s.size && Text.atCharacter ahead
      && Text.atCharacter (ahead.drop (stop - start)) then
    some (Text.decode (ahead.take (stop - start)))
  else none

/-- A source is determined by its text: the bytes are those of the text, and the bound is a proof.
-/
theorem ext {s t : Source} (h : s.text = t.text) : s = t := by
  obtain ⟨text, bytes, hbytes, _⟩ := s
  obtain ⟨text', bytes', hbytes', _⟩ := t
  subst hbytes hbytes'
  cases h
  rfl

/-- The size of a source is the number of its bytes. -/
theorem length_bytes (s : Source) : s.bytes.length = s.size := by
  rw [s.bytes_eq, Text.length_bytes, size]

/-- The bound on sources, put for the size. -/
theorem size_lt (s : Source) : s.size < sizeLimit := s.length_bytes ▸ s.length_lt

/-- Two offsets into a source never add up to more than an address. Sources are kept below half
the addresses for the sake of this: a start plus a length within a source cannot overflow. -/
theorem add_lt_addressLimit {s : Source} {a b : Nat} (ha : a ≤ s.size) (hb : b ≤ s.size) :
    a + b < addressLimit := by
  have hs := s.size_lt
  have hlimit : addressLimit = sizeLimit + sizeLimit := by decide
  omega

/-- A text makes a source exactly when some source has that text, and then it makes that one. So a
source is its text, with the bound on its size. -/
theorem ofString?_eq_some_iff {text : String} {s : Source} :
    ofString? text = some s ↔ s.text = text := by
  rw [ofString?]
  constructor
  · intro h
    split at h
    · cases h
      rfl
    · cases h
  · rintro rfl
    have hlen : (Text.bytes s.text).length < sizeLimit := s.bytes_eq ▸ s.length_lt
    rw [dif_pos hlen]
    exact congrArg some (ext rfl)

end Source

end Lexis
