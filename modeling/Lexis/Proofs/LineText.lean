import Lexis.Proofs.Positions
import Mathlib.Data.List.DropRight

/-!
# `Lexis.Proofs.LineText`: the line that an offset is on

The table of a source cuts it into lines, and each cut is next to the byte of a line break, so
that it falls between characters. Hence every line has a text. The theorems:

* `LineTable.isValid_of_mem_starts`: no line starts within a character.
* `LineTable.exists_lineText`: the line of an offset has a text, and the offset is within.
* `LineTable.startAt_index_add_length`: what stands on the line in front of an offset goes back
  to the last line break.
* `LineTable.exists_lineText_append`: the text of the line, seen from a byte on it.
-/

set_option autoImplicit false

namespace Lexis

open Text (Encoded)

/-- The bytes in front of an offset, back to the last line break. -/
def Source.lineHead (source : Source) (offset : Nat) : List UInt8 :=
  (source.bytes.take offset).rtakeWhile fun b => !Byte.isLineBreak b

/-- A character that line breaks are made of. -/
def Text.isLineBreak (c : Char) : Bool := c == '\n' || c == '\r'

/-- A cut between encoded bytes is between characters, where one may cut the text as well. -/
theorem Source.isValid_of_encoded {source : Source} {front rest : List UInt8}
    (h : source.bytes = front ++ rest) (hfront : Encoded front) (hrest : Encoded rest) :
    (⟨front.length⟩ : String.Pos.Raw).IsValid source.text := by
  have hbytes : source.bytes = front ++ (Text.bytes "" ++ rest) := h
  exact (Source.Holds.of_bytes hbytes hfront hrest).isValid_start

/-- What is dropped at the end of a text stands behind the last character that stays, so that all
up to such a character `c` can be set aside. -/
theorem Text.dropEnd_append {drop : Char → Bool} {c : Char} (hc : drop c = false)
    (front behind : String) :
    dropEnd drop (front ++ String.singleton c ++ behind)
      = front ++ String.singleton c ++ dropEnd drop behind := by
  have hkept : (c :: front.toList.reverse).dropWhile drop = c :: front.toList.reverse := by
    rw [List.dropWhile_cons_of_neg (by simp [hc])]
  rw [String.ext_iff]
  simp only [dropEnd, String.toList_append, String.toList_singleton, String.toList_ofList,
    List.reverse_append, List.reverse_singleton, List.singleton_append, List.dropWhile_append,
    hkept]
  split
  · next hnone => simp [List.isEmpty_iff.mp hnone]
  · simp

/-- An ASCII byte is all of its character. -/
theorem Text.bytes_singleton_toChar {b : UInt8} (h : b < 0x80) :
    bytes (String.singleton (Char.ofUInt8 b)) = [b] := by
  rw [bytes_eq_flatMap, String.toList_singleton, List.flatMap_singleton, utf8EncodeChar_toChar h]

/-- For an ASCII byte and its character it is the same to be part of a line break. Other
characters are no part of one, and neither are their bytes. -/
theorem Text.isLineBreak_toChar : ∀ {b : UInt8}, b < 0x80 →
    isLineBreak (Char.ofUInt8 b) = Byte.isLineBreak b := by
  rintro ⟨b⟩
  revert b
  decide

namespace Byte

/-- Line breaks are made of ASCII bytes. -/
theorem ascii_of_isLineBreak {b : UInt8} (h : isLineBreak b = true) : b < 0x80 := by
  simp only [isLineBreak, Bool.or_eq_true, beq_iff_eq] at h
  rcases h with rfl | rfl <;> decide

/-- A line ends with a byte of a line break. The converse fails for a carriage return in front of
a line feed, where the line feed ends the line. -/
theorem isLineBreak_of_endsLine {b : UInt8} {rest : List UInt8}
    (h : LineTable.endsLine b rest = true) : isLineBreak b = true := by
  simp only [LineTable.endsLine, isLineBreak, Bool.or_eq_true, Bool.and_eq_true] at h ⊢
  rcases h with h | h
  · exact .inl h
  · exact .inr h.1

end Byte

namespace LineTable

variable {source : Source}

/-! ### Lines are cut between characters -/

/-- No line starts within a character: it starts with the source, or behind a byte of a line
break. -/
theorem isValid_of_mem_starts {e : Nat} (h : e ∈ (ofSource source).starts) :
    (⟨e⟩ : String.Pos.Raw).IsValid source.text := by
  rcases (mem_starts_ofSource_iff source).mp h with rfl | ⟨front, b, rest, hbytes, hends, rfl⟩
  · exact Source.isValid_of_encoded rfl Text.encoded_nil source.encoded_bytes
  · have hascii := Byte.ascii_of_isLineBreak (Byte.isLineBreak_of_endsLine hends)
    obtain ⟨hfront, hrest⟩ := (hbytes ▸ source.encoded_bytes).split_ascii hascii
    have hb : Encoded [b] := Text.encoded_of_ascii (by simpa using hascii)
    rw [List.append_cons] at hbytes
    have hvalid := Source.isValid_of_encoded hbytes (hfront.append hb) hrest
    rw [List.length_append] at hvalid
    exact hvalid

/-- The end of a source is no place within a character. -/
theorem isValid_size (source : Source) : (⟨source.size⟩ : String.Pos.Raw).IsValid source.text := by
  rw [← source.length_bytes]
  exact Source.isValid_of_encoded (List.append_nil _).symm source.encoded_bytes Text.encoded_nil

/-- A line of the table is what stands between its start and the next one, or the end of the
source, without the characters of line breaks at its end. `htext` says that there is a text
between the two, which no line lacks. -/
theorem lineText?_of_textBetween? {table : LineTable} {index start stop : Nat} {text : String}
    (hstart : table.starts[index]? = some start)
    (hstop : table.starts[index + 1]?.getD source.size = stop)
    (htext : source.textBetween? start stop = some text) :
    table.lineText? source (index + 1) = some (Text.dropEnd Text.isLineBreak text) := by
  obtain ⟨hindex, rfl⟩ := List.getElem?_eq_some_iff.mp hstart
  rw [lineText?, List.drop_eq_getElem_cons hindex]
  dsimp only
  rw [List.head?_drop, hstop, htext]
  rfl

/-- The line of an offset has a text, and the offset is within the line: at its end at the latest,
and in front of it if any byte of the source is still behind the offset. -/
theorem exists_lineText {offset : Nat} (h : offset ≤ source.size) :
    ∃ stop text, source.Holds ⟨(ofSource source).startAt ((ofSource source).index offset),
        stop - (ofSource source).startAt ((ofSource source).index offset)⟩ text ∧
      offset ≤ stop ∧ (offset < source.size → offset < stop) ∧
      (ofSource source).lineText? source ((ofSource source).index offset + 1)
        = some (Text.dropEnd Text.isLineBreak text) := by
  obtain ⟨start, hget, hstart, hle, hnext⟩ := exists_start source offset
  rw [hstart]
  -- The line stops where the next one starts, or with the source.
  generalize hstop : (ofSource source).starts[(ofSource source).index offset + 1]?.getD source.size
    = stop
  have hbounds : offset ≤ stop ∧ (offset < source.size → offset < stop) ∧
      (⟨stop⟩ : String.Pos.Raw).IsValid source.text := by
    cases hlater : (ofSource source).starts[(ofSource source).index offset + 1]? with
    | none =>
        obtain rfl : source.size = stop := by simpa [hlater] using hstop
        exact ⟨h, id, isValid_size source⟩
    | some next =>
        obtain rfl : next = stop := by simpa [hlater] using hstop
        have hlt := hnext next hlater
        exact ⟨Nat.le_of_lt hlt, fun _ => hlt, isValid_of_mem_starts (List.mem_of_getElem? hlater)⟩
  obtain ⟨hoffset, hlt, hvalid⟩ := hbounds
  have hholds := Source.holds_decode_slice (Nat.le_trans hle hoffset)
    (isValid_of_mem_starts (List.mem_of_getElem? hget)) hvalid
  refine ⟨stop, _, hholds, hoffset, hlt, ?_⟩
  have htext := hholds.textBetween?_eq
  rw [Span.stop, Nat.add_sub_cancel' (Nat.le_trans hle hoffset)] at htext
  exact lineText?_of_textBetween? hget hstop htext

/-! ### The line of a byte -/

variable {front rest : List UInt8} {b : UInt8}

/-- Where no line break is in between (`hhead`), a line that starts behind a line break (`hdone`)
reaches on to the byte `b`. That byte is no line feed, which might belong to a carriage return in
front of it. -/
theorem mem_starts_of_append {done head : List UInt8}
    (hbytes : source.bytes = done ++ (head ++ b :: rest)) (hb : b ≠ Byte.lineFeed)
    (hhead : ∀ c ∈ head, Byte.isLineBreak c = false)
    (hdone : ∀ c ∈ done.getLast?, Byte.isLineBreak c = true) :
    done.length ∈ (ofSource source).starts := by
  rw [mem_starts_ofSource_iff]
  rcases List.eq_nil_or_concat done with rfl | ⟨front, c, rfl⟩
  · exact .inl rfl
  · refine .inr ⟨front, c, head ++ b :: rest, by simp [hbytes], ?_, by simp⟩
    have hc : Byte.isLineBreak c = true := hdone c (by simp)
    -- A carriage return ends the line too, since the byte behind it is no line feed.
    have hnext : (head ++ b :: rest).head? ≠ some Byte.lineFeed := by
      cases head with
      | nil => simpa using hb
      | cons d head =>
          intro hd
          obtain rfl : d = Byte.lineFeed := by simpa using hd
          have hbreak := hhead Byte.lineFeed List.mem_cons_self
          cases hbreak
    simp only [Byte.isLineBreak, Bool.or_eq_true] at hc
    simp only [endsLine, Bool.or_eq_true, Bool.and_eq_true, bne_iff_ne, ne_eq, hnext,
      not_false_eq_true, and_true]
    exact hc

/-- No line starts behind a byte that is part of no line break. So no line starts later than
`done` ends, as far as `head` goes. -/
theorem le_length_of_mem_starts {done head : List UInt8} {e : Nat}
    (hbytes : source.bytes = done ++ (head ++ rest))
    (hhead : ∀ c ∈ head, Byte.isLineBreak c = false) (he : e ∈ (ofSource source).starts)
    (hle : e ≤ done.length + head.length) : e ≤ done.length := by
  rcases (mem_starts_ofSource_iff source).mp he with rfl | ⟨front, c, after, hsplit, hends, rfl⟩
  · exact Nat.zero_le _
  · by_contra hgt
    -- The byte that ends the line in front would be one of `head`.
    have hget : source.bytes[front.length]? = some c := by
      rw [hsplit, List.getElem?_append_right (Nat.le_refl _), Nat.sub_self]
      rfl
    have hmem : head[front.length - done.length]? = some c := by
      rw [hbytes, List.getElem?_append_right (by omega), List.getElem?_append_left (by omega)]
        at hget
      exact hget
    have hbreak := hhead c (List.mem_of_getElem? hmem)
    rw [Byte.isLineBreak_of_endsLine hends] at hbreak
    cases hbreak

/-- What stands on the line in front of a byte goes back to the last line break, unless the byte
is a line feed, which a carriage return leaves the break to. This ties the table, which is built
from front to back, to a look back from the byte. -/
theorem startAt_index_add_length (hbytes : source.bytes = front ++ b :: rest)
    (hb : b ≠ Byte.lineFeed) :
    (ofSource source).startAt ((ofSource source).index front.length)
      + (source.lineHead front.length).length = front.length := by
  have hlineHead : source.lineHead front.length
      = front.rtakeWhile fun c => !Byte.isLineBreak c := by
    rw [Source.lineHead, hbytes, List.take_left]
  have hsplit : front.rdropWhile (fun c => !Byte.isLineBreak c)
      ++ front.rtakeWhile (fun c => !Byte.isLineBreak c) = front :=
    List.rdropWhile_append_rtakeWhile
  have hhead : ∀ c ∈ front.rtakeWhile fun c => !Byte.isLineBreak c,
      Byte.isLineBreak c = false := by
    intro c hc
    simpa using List.mem_rtakeWhile_imp hc
  have hdone : ∀ c ∈ (front.rdropWhile fun c => !Byte.isLineBreak c).getLast?,
      Byte.isLineBreak c = true := by
    intro c hc
    obtain ⟨hne, rfl⟩ := List.mem_getLast?_eq_getLast hc
    simpa using List.rdropWhile_last_not _ _ hne
  rw [hlineHead]
  generalize front.rtakeWhile (fun c => !Byte.isLineBreak c) = head at hsplit hhead ⊢
  generalize front.rdropWhile (fun c => !Byte.isLineBreak c) = done at hsplit hdone
  subst hsplit
  rw [List.append_assoc] at hbytes
  rw [List.length_append]
  -- The line starts behind `done`, and no line starts between there and the byte.
  obtain ⟨start, hget, hstart, hle, -⟩ := exists_start source (done.length + head.length)
  have hlower := le_startAt_index source (mem_starts_of_append hbytes hb hhead hdone)
    (Nat.le_add_right done.length head.length)
  have hupper := le_length_of_mem_starts hbytes hhead (List.mem_of_getElem? hget) hle
  rw [hstart] at hlower ⊢
  omega

/-- The text of the line of a byte holds what stands in front of the byte on its line, then the
byte, and then some text behind it. The byte is ASCII, so that it is a character of the line, and
it is no part of a line break, so that it stays when these are dropped. -/
theorem exists_lineText_append (hbytes : source.bytes = front ++ b :: rest) (hascii : b < 0x80)
    (hb : Byte.isLineBreak b = false) :
    ∃ head behind : String, Text.bytes head = source.lineHead front.length ∧
      (ofSource source).lineText? source ((ofSource source).index front.length + 1)
        = some (head ++ String.singleton (Char.ofUInt8 b) ++ behind) := by
  have hsize : front.length < source.size := by
    rw [← source.length_bytes, hbytes, List.length_append, List.length_cons]
    omega
  have hfeed : b ≠ Byte.lineFeed := by
    rintro rfl
    cases hb
  have hlength := startAt_index_add_length hbytes hfeed
  obtain ⟨stop, text, hholds, -, hlt, hline⟩ := exists_lineText (Nat.le_of_lt hsize)
  have hstop := hlt hsize
  generalize (ofSource source).startAt ((ofSource source).index front.length) = start
    at hlength hholds
  -- The bytes of the line, with the byte among them.
  obtain ⟨done, hdone⟩ : source.lineHead front.length <:+ front := by
    rw [Source.lineHead, hbytes, List.take_left]
    exact List.rtakeWhile_suffix _ _
  generalize source.lineHead front.length = head at hdone hlength ⊢
  subst hdone
  rw [List.length_append] at hlength hstop
  obtain ⟨width, rfl⟩ : ∃ width, stop = start + (head.length + 1 + width) :=
    ⟨stop - (start + (head.length + 1)), by omega⟩
  obtain rfl : start = done.length := by omega
  have hslice := hholds.slice_eq
  rw [Span.stop, Nat.add_sub_cancel_left, Source.slice, hbytes, List.append_assoc,
    List.drop_left, Nat.add_sub_cancel_left, Nat.add_assoc, List.take_length_add_append,
    Nat.add_comm 1, List.take_succ_cons] at hslice
  obtain ⟨⟨before, rfl⟩, ⟨more, hmore⟩⟩ := (hslice ▸ Text.encoded_bytes text).split_ascii hascii
  obtain rfl : text = before ++ String.singleton (Char.ofUInt8 b) ++ more := by
    refine Text.bytes_injective ?_
    rw [← hslice, hmore, Text.bytes_append, Text.bytes_append, Text.bytes_singleton_toChar hascii,
      List.append_assoc]
    rfl
  have hchar := (Text.isLineBreak_toChar hascii).trans hb
  refine ⟨before, Text.dropEnd Text.isLineBreak more, rfl, ?_⟩
  rw [← Text.dropEnd_append hchar, ← hline]

end LineTable

end Lexis
