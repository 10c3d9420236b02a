/-!
# `Lexis.Text.Utf8`: text from bytes, come what may

`decode` turns any bytes into text. Well-formed UTF-8 becomes the characters it encodes.
Where the bytes are not well formed, each longest run that could still have begun a
character becomes one replacement character U+FFFD, and decoding goes on after the run.

* `decodeChars_utf8Encode`: decoding gives back the characters that were encoded.
* `decode_bytes`: the bytes of a text decode to the text.
-/

set_option autoImplicit false

namespace Lexis.Text

/-- The bytes of a text. -/
def bytes (text : String) : List UInt8 := text.toByteArray.data.toList

/-- What ill-formed bytes are shown as. -/
def replacement : Char := '\uFFFD'

/-- Whether a byte continues a character that an earlier byte began. -/
def isContinuation (b : UInt8) : Bool := b &&& 0xC0 == 0x80

/-- Whether no character of a text is cut where the rest of its bytes is `rest`. -/
def atCharacter : (rest : List UInt8) → Bool
  | [] => true
  | b :: _ => !isContinuation b

/-- The character that the front of the bytes encodes, if it is well formed. -/
def charAt? (front : List UInt8) : Option Char :=
  (front.take 4).toByteArray.utf8DecodeChar? 0

/-- Whether `second` may follow `lead` at the start of a character of three or four bytes. The
narrower ranges leave out overlong forms, surrogates and values past the last character. A lead
that begins no such character has no followers. -/
def mayFollow (lead second : UInt8) : Bool :=
  if lead == 0xE0 then 0xA0 ≤ second && second ≤ 0xBF
  else if lead == 0xED then 0x80 ≤ second && second ≤ 0x9F
  else if lead == 0xF0 then 0x90 ≤ second && second ≤ 0xBF
  else if lead == 0xF4 then 0x80 ≤ second && second ≤ 0x8F
  else 0xE1 ≤ lead && lead ≤ 0xF3 && isContinuation second

/-- How many of the bytes after `lead` belong to the same ill-formed run, given that no
character is well formed at `lead`. -/
def brokenTail (lead : UInt8) : List UInt8 → Nat
  | [] => 0
  | [second] => if mayFollow lead second then 1 else 0
  | second :: third :: _ =>
    if mayFollow lead second then
      if 0xF0 ≤ lead && isContinuation third then 2 else 1
    else 0

/-- The characters of the bytes after the first `skip`, put in front of those of `done`, which is
in reverse. The bytes of a character behind its first are skipped one by one, so that the
recursion is on the list. -/
def decodeFrom (done : List Char) : (skip : Nat) → List UInt8 → List Char
  | _, [] => done.reverse
  | skip + 1, _ :: rest => decodeFrom done skip rest
  | 0, b :: rest =>
    match charAt? (b :: rest) with
    | some c => decodeFrom (c :: done) (c.utf8Size - 1) rest
    | none => decodeFrom (replacement :: done) (brokenTail b rest) rest

/-- The characters that bytes stand for. -/
def decodeChars (input : List UInt8) : List Char := decodeFrom [] 0 input

/-- The text that bytes stand for. -/
def decode (input : List UInt8) : String := String.ofList (decodeChars input)

/-! ### Decoding undoes encoding -/

/-- The number of bytes of a text is the size that its UTF-8 form is given. -/
theorem length_bytes (text : String) : (bytes text).length = text.utf8ByteSize := by
  rw [bytes, Array.length_toList]
  rfl

/-- The bytes of a text are those of its characters, one after the other. Facts about the bytes of
a text are proved by induction on its characters through this. -/
theorem bytes_eq_flatMap (text : String) :
    bytes text = text.toList.flatMap String.utf8EncodeChar := by
  rw [bytes, ← String.utf8Encode_toList, List.utf8Encode]
  simp

/-- Bytes that are to be skipped are skipped, and decoding goes on behind them. These are the
bytes of a character behind its first one. -/
theorem decodeFrom_skip (done : List Char) (front rest : List UInt8) :
    decodeFrom done front.length (front ++ rest) = decodeFrom done 0 rest := by
  induction front with
  | nil => rfl
  | cons b front ih => exact ih

/-- The bytes of a character, followed by any others, read as that character. -/
theorem charAt?_utf8EncodeChar_append (c : Char) (rest : List UInt8) :
    charAt? (String.utf8EncodeChar c ++ rest) = some c := by
  have hlen : (String.utf8EncodeChar c).length ≤ 4 := by
    rw [String.length_utf8EncodeChar]
    exact c.utf8Size_le_four
  -- Four bytes hold every character, so cutting there leaves `c` whole.
  rw [charAt?, List.take_append, List.take_of_length_le hlen]
  have happ :
      (String.utf8EncodeChar c ++ rest.take (4 - (String.utf8EncodeChar c).length)).toByteArray
      = (String.utf8EncodeChar c).toByteArray
        ++ (rest.take (4 - (String.utf8EncodeChar c).length)).toByteArray := by
    simp
  rw [happ]
  exact ByteArray.utf8DecodeChar?_utf8EncodeChar_append

/-- A character's bytes give the character, whatever comes behind them. This is one step of
decoding well-formed bytes. -/
theorem decodeFrom_utf8EncodeChar_append (done : List Char) (c : Char) (rest : List UInt8) :
    decodeFrom done 0 (String.utf8EncodeChar c ++ rest) = decodeFrom (c :: done) 0 rest := by
  have hlen := String.length_utf8EncodeChar c
  have hchar := charAt?_utf8EncodeChar_append c rest
  cases henc : String.utf8EncodeChar c with
  | nil => exact absurd henc String.utf8EncodeChar_ne_nil
  | cons b tail =>
      rw [henc] at hlen hchar
      rw [List.cons_append] at hchar ⊢
      rw [decodeFrom, hchar]
      have htail : c.utf8Size - 1 = tail.length := by
        rw [← hlen, List.length_cons, Nat.add_sub_cancel]
      simp only [htail]
      -- The first byte gave the character, and its other bytes are skipped.
      exact decodeFrom_skip _ tail rest

/-- Encoded characters, followed by any other bytes, come out one for one. The characters that are
`done` are kept in reverse. -/
theorem decodeFrom_flatMap_append (chars done : List Char) (rest : List UInt8) :
    decodeFrom done 0 (chars.flatMap String.utf8EncodeChar ++ rest)
      = decodeFrom (chars.reverse ++ done) 0 rest := by
  induction chars generalizing done with
  | nil => rfl
  | cons c chars ih =>
      rw [List.flatMap_cons, List.append_assoc, decodeFrom_utf8EncodeChar_append, ih,
        List.reverse_cons, List.append_assoc, List.singleton_append]

/-- Decoding gives back the characters that were encoded, none lost and none replaced. -/
theorem decodeChars_utf8Encode (chars : List Char) :
    decodeChars (chars.flatMap String.utf8EncodeChar) = chars := by
  have h := decodeFrom_flatMap_append chars [] []
  rw [List.append_nil, List.append_nil] at h
  rw [decodeChars, h, decodeFrom, List.reverse_reverse]

/-- The bytes of a text decode to the text. On parts of a source that cut no character, decoding
is therefore exact. -/
theorem decode_bytes (text : String) : decode (bytes text) = text := by
  rw [decode, bytes_eq_flatMap, decodeChars_utf8Encode, String.ofList_toList]

end Lexis.Text
