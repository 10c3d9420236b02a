import Lexis.Text.Utf8

/-!
# `Lexis.Proofs.Utf8`: cutting encoded text into encoded parts

Bytes are `Encoded` when they are the UTF-8 form of some text. A part cut out of encoded
bytes need not be encoded, since the cut may fall inside of a character. It never falls there
when a byte on either side of it is ASCII. The theorems:

* `bytes_decode`: encoded bytes are the bytes of what they decode to.
* `Encoded.split`: a cut in front of a byte that can begin a character.
* `Encoded.split_ascii`: a cut behind an ASCII byte.
* `Encoded.of_append`: a cut behind bytes that are encoded themselves.
* `Encoded.atCharacter`: encoded bytes begin where a character begins.
-/

set_option autoImplicit false

namespace Lexis.Text

/-- The bytes are those of a text. -/
def Encoded (input : List UInt8) : Prop := ∃ text, input = bytes text

/-- The bytes of a text are encoded. -/
theorem encoded_bytes (text : String) : Encoded (bytes text) := ⟨text, rfl⟩

/-- Encoded bytes are those of a list of characters, on which inductions go. A text itself is
stored as bytes. -/
theorem encoded_iff_chars {input : List UInt8} :
    Encoded input ↔ ∃ chars : List Char, input = chars.flatMap String.utf8EncodeChar := by
  constructor
  · rintro ⟨text, rfl⟩
    exact ⟨text.toList, bytes_eq_flatMap text⟩
  · rintro ⟨chars, rfl⟩
    exact ⟨String.ofList chars, by rw [bytes_eq_flatMap, String.toList_ofList]⟩

/-- The bytes of two texts in a row are those of the one and then those of the other. -/
theorem bytes_append (s t : String) : bytes (s ++ t) = bytes s ++ bytes t := by
  rw [bytes_eq_flatMap, bytes_eq_flatMap, bytes_eq_flatMap, String.toList_append,
    List.flatMap_append]

/-- Decoding loses nothing of encoded bytes: they can be written again from the text. Of bytes
that are not encoded this is false, since the replacement character has bytes of its own. -/
theorem bytes_decode {input : List UInt8} (h : Encoded input) : bytes (decode input) = input := by
  obtain ⟨text, rfl⟩ := h
  rw [decode_bytes]

/-- No two texts have the same bytes, so that texts can be compared by their bytes. -/
theorem bytes_injective {s t : String} (h : bytes s = bytes t) : s = t := by
  rw [← decode_bytes s, h, decode_bytes]

/-! ### Single bytes -/

/-- An ASCII byte may begin a character. -/
theorem isUTF8FirstByte_of_ascii : ∀ {b : UInt8}, b < 0x80 → b.IsUTF8FirstByte := by
  rintro ⟨b⟩
  revert b
  decide

/-- A byte that may begin a character continues none. The two classes of bytes are told apart by
their first two bits. -/
theorem isContinuation_of_isUTF8FirstByte : ∀ {b : UInt8}, b.IsUTF8FirstByte →
    isContinuation b = false := by
  rintro ⟨b⟩
  revert b
  decide

/-- An ASCII byte is the whole of its character, and the character has the number of the byte. -/
theorem utf8EncodeChar_toChar : ∀ {b : UInt8}, b < 0x80 →
    String.utf8EncodeChar (Char.ofUInt8 b) = [b] := by
  rintro ⟨b⟩
  revert b
  decide

/-- The first byte of a character of more than one byte is not ASCII. The three forms are those of
characters of two, three and four bytes, and every byte is tried in each. -/
theorem not_ascii_of_mask : ∀ x : UInt8, ¬(x &&& 0x1f ||| 0xc0 < 0x80) ∧
    ¬(x &&& 0x0f ||| 0xe0 < 0x80) ∧ ¬(x &&& 0x07 ||| 0xf0 < 0x80) := by
  rintro ⟨x⟩
  revert x
  decide

/-- A character whose first byte is ASCII has no other bytes. -/
theorem utf8EncodeChar_eq_singleton_of_ascii {c : Char} {b : UInt8} {tail : List UInt8}
    (h : String.utf8EncodeChar c = b :: tail) (hb : b < 0x80) : tail = [] := by
  rcases c.utf8Size_eq with hsize | hsize | hsize | hsize
  · rw [String.utf8EncodeChar_eq_singleton hsize, List.cons.injEq] at h
    exact h.2.symm
  · rw [String.utf8EncodeChar_eq_cons_cons hsize, List.cons.injEq] at h
    exact absurd (h.1 ▸ hb) (not_ascii_of_mask _).1
  · rw [String.utf8EncodeChar_eq_cons_cons_cons hsize, List.cons.injEq] at h
    exact absurd (h.1 ▸ hb) (not_ascii_of_mask _).2.1
  · rw [String.utf8EncodeChar_eq_cons_cons_cons_cons hsize, List.cons.injEq] at h
    exact absurd (h.1 ▸ hb) (not_ascii_of_mask _).2.2

/-! ### Cuts -/

/-- No bytes are the bytes of the empty text. -/
theorem encoded_nil : Encoded [] := encoded_bytes ""

/-- The bytes of one character are encoded. -/
theorem encoded_utf8EncodeChar (c : Char) : Encoded (String.utf8EncodeChar c) :=
  encoded_iff_chars.mpr ⟨[c], by simp⟩

/-- Encoded bytes behind encoded bytes are encoded: they are the bytes of two texts in a row. -/
theorem Encoded.append {front rest : List UInt8} (hfront : Encoded front) (hrest : Encoded rest) :
    Encoded (front ++ rest) := by
  obtain ⟨s, rfl⟩ := hfront
  obtain ⟨t, rfl⟩ := hrest
  exact ⟨s ++ t, (bytes_append s t).symm⟩

/-- Bytes that are all ASCII are encoded. -/
theorem encoded_of_ascii {input : List UInt8} (h : ∀ b ∈ input, b < 0x80) : Encoded input := by
  induction input with
  | nil => exact encoded_nil
  | cons b rest ih =>
      have hrest : Encoded rest := by
        refine ih ?_
        intro c hc
        exact h c (List.mem_cons_of_mem b hc)
      have hb := encoded_utf8EncodeChar (Char.ofUInt8 b)
      rw [utf8EncodeChar_toChar (h b List.mem_cons_self)] at hb
      exact hb.append hrest

/-- What follows encoded bytes within encoded bytes is encoded. So a text can be taken off the
front of another, byte for byte. -/
theorem Encoded.of_append {front rest : List UInt8} (hfront : Encoded front)
    (h : Encoded (front ++ rest)) : Encoded rest := by
  obtain ⟨chars, rfl⟩ := encoded_iff_chars.mp hfront
  obtain ⟨all, hall⟩ := encoded_iff_chars.mp h
  clear hfront h
  induction chars generalizing all with
  | nil => exact encoded_iff_chars.mpr ⟨all, hall⟩
  | cons c chars ih =>
      cases all with
      | nil => simp [String.utf8EncodeChar_ne_nil] at hall
      | cons d all =>
          rw [List.flatMap_cons, List.flatMap_cons, List.append_assoc] at hall
          -- Both sides begin with a character, and bytes begin with one character only.
          have hc := charAt?_utf8EncodeChar_append c (chars.flatMap String.utf8EncodeChar ++ rest)
          rw [hall, charAt?_utf8EncodeChar_append, Option.some.injEq] at hc
          subst hc
          exact ih all (List.append_cancel_left hall)

/-- Encoded bytes begin with the bytes of a character, if with any. What is left behind the
character is encoded again. -/
theorem Encoded.exists_char {b : UInt8} {rest : List UInt8} (h : Encoded (b :: rest)) :
    ∃ c tail more, String.utf8EncodeChar c = b :: tail ∧ rest = tail ++ more ∧ Encoded more := by
  obtain ⟨chars, hchars⟩ := encoded_iff_chars.mp h
  cases chars with
  | nil => cases hchars
  | cons c chars =>
      rw [List.flatMap_cons] at hchars
      cases hc : String.utf8EncodeChar c with
      | nil => exact absurd hc String.utf8EncodeChar_ne_nil
      | cons d tail =>
          rw [hc, List.cons_append, List.cons.injEq] at hchars
          exact ⟨c, tail, _, by rw [hc, hchars.1], hchars.2, encoded_iff_chars.mpr ⟨chars, rfl⟩⟩

/-- Only the first byte of a character can begin one. In a row of characters this tells where each
of them starts. -/
theorem isUTF8FirstByte_iff_eq_nil {c : Char} {front rest : List UInt8} {b : UInt8}
    (h : String.utf8EncodeChar c = front ++ b :: rest) : b.IsUTF8FirstByte ↔ front = [] := by
  have hi : front.length < (String.utf8EncodeChar c).length := by simp [h]
  have hb : (String.utf8EncodeChar c)[front.length] = b := by simp [h]
  rw [← hb, UInt8.isUTF8FirstByte_getElem_utf8EncodeChar, List.length_eq_zero_iff]

/-- Encoded bytes begin where a character begins, or there are none. -/
theorem Encoded.atCharacter {input : List UInt8} (h : Encoded input) :
    atCharacter input = true := by
  cases input with
  | nil => rfl
  | cons b rest =>
      obtain ⟨c, tail, _, hc, -, -⟩ := h.exists_char
      have hfirst : String.utf8EncodeChar c = [] ++ b :: tail := hc
      have hb : b.IsUTF8FirstByte := (isUTF8FirstByte_iff_eq_nil hfirst).mpr rfl
      simp [Text.atCharacter, isContinuation_of_isUTF8FirstByte hb]

/-- A cut in front of the end or of a byte that can begin a character cuts no character. The
induction is on the characters: the cut falls behind the first one, or in front of it. -/
theorem Encoded.split {front rest : List UInt8} (h : Encoded (front ++ rest))
    (hrest : ∀ b ∈ rest.head?, b.IsUTF8FirstByte) : Encoded front ∧ Encoded rest := by
  obtain ⟨chars, hchars⟩ := encoded_iff_chars.mp h
  induction chars generalizing front with
  | nil =>
      obtain ⟨rfl, rfl⟩ := List.append_eq_nil_iff.mp hchars
      exact ⟨encoded_nil, encoded_nil⟩
  | cons c chars ih =>
      have hlater : Encoded (chars.flatMap String.utf8EncodeChar) :=
        encoded_iff_chars.mpr ⟨chars, rfl⟩
      rw [List.flatMap_cons, List.append_eq_append_iff] at hchars
      rcases hchars with ⟨more, hc, hmore⟩ | ⟨more, rfl, hmore⟩
      · -- The cut does not fall behind `c`. It falls in front of `c`, or else a later byte of
        -- `c` would begin a character.
        cases more with
        | nil =>
            rw [List.append_nil] at hc
            rw [hmore, ← hc]
            exact ⟨encoded_utf8EncodeChar c, hlater⟩
        | cons b tail =>
            have hb : b.IsUTF8FirstByte := hrest b (by simp [hmore])
            obtain rfl := (isUTF8FirstByte_iff_eq_nil hc).mp hb
            exact ⟨encoded_nil, h⟩
      · obtain ⟨hfront, hrest'⟩ := ih (hmore ▸ hlater) hmore.symm
        exact ⟨(encoded_utf8EncodeChar c).append hfront, hrest'⟩

/-- A cut behind an ASCII byte cuts no character, and neither does one in front of it. Since
words, numbers, quotes and comments all begin with ASCII, most lexemes are cut out this way. -/
theorem Encoded.split_ascii {front rest : List UInt8} {b : UInt8}
    (h : Encoded (front ++ b :: rest)) (hb : b < 0x80) :
    Encoded front ∧ Encoded rest := by
  have hfirst : ∀ d ∈ (b :: rest).head?, d.IsUTF8FirstByte := by
    intro d hd
    obtain rfl : b = d := by simpa using hd
    exact isUTF8FirstByte_of_ascii hb
  obtain ⟨hfront, hbrest⟩ := h.split hfirst
  obtain ⟨c, tail, more, hc, rfl, hmore⟩ := hbrest.exists_char
  obtain rfl := utf8EncodeChar_eq_singleton_of_ascii hc hb
  exact ⟨hfront, hmore⟩

end Lexis.Text
