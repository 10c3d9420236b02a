import Lexis.LineTable
import Lexis.Proofs.Utf8
import Lexis.Span

/-!
# `Lexis.Proofs.LineBreaks`: the line table and the line breaks of a source

A line break is a line feed, a carriage return, or a carriage return with a line feed behind
it. `lineBreaks` finds them as they are written, from left to right. The table of a source
looks at one byte at a time instead, and leaves a carriage return out when a line feed comes
next. This file shows that the two agree, and what the table says about an offset. The
theorems:

* `LineTable.starts_ofSource`: lines start at zero and where the line breaks end.
* `LineTable.mem_starts_ofSource_iff`: so they start behind the bytes that end a line.
* `LineTable.pairwise_starts_ofSource`: no line starts twice.
* `LineTable.index_ofSource`: the line of an offset is counted by the line breaks that end at
  or before it.
* `LineTable.exists_start`, `LineTable.le_startAt_index`: the line of an offset is the last one
  that starts at or before it.
-/

set_option autoImplicit false

namespace Lexis

open Text (Encoded)

/-- A byte that line breaks are made of. -/
def Byte.isLineBreak (b : UInt8) : Bool := b == lineFeed || b == carriageReturn

/-- The line breaks of `bytes`, the first of which has the offset `offset`. A carriage return and
a line feed behind it are one. They are found from left to right, as a reader would find them, and
not one byte at a time as the table does it. -/
def lineBreaks (offset : Nat) (bytes : List UInt8) : List Span :=
  match bytes with
  | [] => []
  | [b] => if Byte.isLineBreak b then [⟨offset, 1⟩] else []
  | a :: b :: rest =>
    if a == Byte.carriageReturn && b == Byte.lineFeed then
      ⟨offset, 2⟩ :: lineBreaks (offset + 2) rest
    else if Byte.isLineBreak a then ⟨offset, 1⟩ :: lineBreaks (offset + 1) (b :: rest)
    else lineBreaks (offset + 1) (b :: rest)

/-- A carriage return with a line feed behind it is one break, and one without is another. -/
example : lineBreaks 0 (Text.bytes "a\r\nb\rc") = [⟨1, 2⟩, ⟨4, 1⟩] := by decide +kernel

/-- Every line break takes a byte. -/
theorem length_lineBreaks_le (offset : Nat) (bytes : List UInt8) :
    (lineBreaks offset bytes).length ≤ bytes.length := by
  fun_induction lineBreaks offset bytes with
  | case1 => exact Nat.le_refl 0
  | case2 => exact Nat.le_refl 1
  | case3 => exact Nat.zero_le 1
  | case4 offset a b rest _ ih =>
      simp only [List.length_cons]
      omega
  | case5 offset a b rest _ _ ih =>
      simp only [List.length_cons] at ih ⊢
      omega
  | case6 offset a b rest _ _ ih =>
      simp only [List.length_cons] at ih ⊢
      omega

namespace LineTable

/-! ### One byte at a time -/

variable {offset : Nat} {b : UInt8} {rest : List UInt8}

/-- A byte that ends a line adds the start of the next one, which is the offset behind it. -/
theorem lineStartsFrom_of_endsLine (h : endsLine b rest = true) :
    lineStartsFrom [] offset (b :: rest) = (offset + 1) :: lineStartsFrom [] (offset + 1) rest := by
  rw [lineStartsFrom_eq, if_pos h]
  rfl

/-- Any other byte adds nothing. -/
theorem lineStartsFrom_of_not_endsLine (h : endsLine b rest = false) :
    lineStartsFrom [] offset (b :: rest) = lineStartsFrom [] (offset + 1) rest := by
  rw [lineStartsFrom_eq, if_neg (by simp [h])]
  rfl

/-- What is read one byte at a time is what is read break by break: a line starts where each break
ends. The induction is on the breaks, and the carriage return in front of a line feed is the case
in which two bytes are read for one break. -/
theorem lineStartsFrom_eq_map_stop (offset : Nat) (bytes : List UInt8) :
    lineStartsFrom [] offset bytes = (lineBreaks offset bytes).map Span.stop := by
  fun_induction lineBreaks offset bytes with
  | case1 offset => rfl
  | case2 offset b hb =>
      have hends : endsLine b [] = true := by simpa [endsLine, Byte.isLineBreak] using hb
      rw [lineStartsFrom_of_endsLine hends]
      rfl
  | case3 offset b hb =>
      have hends : endsLine b [] = false := by simpa [endsLine, Byte.isLineBreak] using hb
      rw [lineStartsFrom_of_not_endsLine hends]
      rfl
  | case4 offset a b rest hab ih =>
      -- The carriage return leaves it to the line feed, which ends the line two bytes on.
      obtain ⟨rfl, rfl⟩ : a = Byte.carriageReturn ∧ b = Byte.lineFeed := by simpa using hab
      have hreturn : endsLine Byte.carriageReturn (Byte.lineFeed :: rest) = false := rfl
      have hfeed : endsLine Byte.lineFeed rest = true := rfl
      rw [lineStartsFrom_of_not_endsLine hreturn, lineStartsFrom_of_endsLine hfeed, ih]
      rfl
  | case5 offset a b rest hab ha ih =>
      have hends : endsLine a (b :: rest) = true := by
        simp only [Byte.isLineBreak, endsLine, Bool.or_eq_true, Bool.and_eq_true, beq_iff_eq,
          not_and, bne_iff_ne, ne_eq, List.head?_cons, Option.some.injEq] at hab ha ⊢
        rcases ha with ha | ha
        · exact .inl ha
        · exact .inr ⟨ha, hab ha⟩
      rw [lineStartsFrom_of_endsLine hends, ih]
      rfl
  | case6 offset a b rest _ ha ih =>
      have hends : endsLine a (b :: rest) = false := by
        simp only [Byte.isLineBreak, Bool.not_eq_true, Bool.or_eq_false_iff] at ha
        simp [endsLine, ha.1, ha.2]
      rw [lineStartsFrom_of_not_endsLine hends, ih]

/-- The first byte adds a start if it ends a line, and the others come from the bytes behind it. -/
theorem mem_lineStartsFrom_cons_iff {e : Nat} :
    e ∈ lineStartsFrom [] offset (b :: rest) ↔
      endsLine b rest = true ∧ e = offset + 1 ∨ e ∈ lineStartsFrom [] (offset + 1) rest := by
  cases hends : endsLine b rest with
  | true => simp [lineStartsFrom_of_endsLine hends]
  | false => simp [lineStartsFrom_of_not_endsLine hends]

/-- Lines start behind the bytes that end a line. Whether a byte does may depend on the one behind
it, which is the first of `rest`. -/
theorem mem_lineStartsFrom_iff {bytes : List UInt8} {e : Nat} :
    e ∈ lineStartsFrom [] offset bytes ↔ ∃ front b rest, bytes = front ++ b :: rest ∧
      endsLine b rest = true ∧ e = offset + front.length + 1 := by
  induction bytes generalizing offset with
  | nil => simp [lineStartsFrom]
  | cons a bytes ih =>
      rw [mem_lineStartsFrom_cons_iff, ih]
      constructor
      · rintro (⟨hends, rfl⟩ | ⟨front, b, rest, rfl, hends, rfl⟩)
        · exact ⟨[], a, bytes, rfl, hends, rfl⟩
        · exact ⟨a :: front, b, rest, rfl, hends, by rw [List.length_cons]; omega⟩
      · rintro ⟨front, b, rest, hbytes, hends, rfl⟩
        cases front with
        | nil =>
            obtain ⟨rfl, rfl⟩ := List.cons.inj hbytes
            exact .inl ⟨hends, rfl⟩
        | cons c front =>
            obtain ⟨-, rfl⟩ := List.cons.inj hbytes
            exact .inr ⟨front, b, rest, rfl, hends, by rw [List.length_cons]; omega⟩

/-- Lines start one behind the other, and no two at one offset, as each start has a byte in front
of it that ends the line before. -/
theorem pairwise_lineStartsFrom (offset : Nat) (bytes : List UInt8) :
    (lineStartsFrom [] offset bytes).Pairwise (· < ·) := by
  induction bytes generalizing offset with
  | nil => exact List.Pairwise.nil
  | cons b rest ih =>
      cases hends : endsLine b rest with
      | true =>
          rw [lineStartsFrom_of_endsLine hends, List.pairwise_cons]
          refine ⟨?_, ih (offset + 1)⟩
          intro e he
          obtain ⟨front, _, _, -, -, rfl⟩ := mem_lineStartsFrom_iff.mp he
          omega
      | false =>
          rw [lineStartsFrom_of_not_endsLine hends]
          exact ih (offset + 1)

/-! ### The table of a source -/

variable (source : Source)

/-- Lines start at zero and where the line breaks end. The table goes by bytes that end a line,
and line breaks are found as one or two bytes. -/
theorem starts_ofSource :
    (ofSource source).starts = 0 :: (lineBreaks 0 source.bytes).map Span.stop :=
  congrArg (0 :: ·) (lineStartsFrom_eq_map_stop 0 source.bytes)

/-- There is one line more than there are line breaks. -/
theorem count_ofSource :
    (ofSource source).count = (lineBreaks 0 source.bytes).length + 1 := by
  rw [count, starts_ofSource, List.length_cons, List.length_map]

/-- There are at most as many lines as bytes, and one more. So the number of a line is
addressable. -/
theorem count_ofSource_le : (ofSource source).count ≤ source.size + 1 := by
  have hle := length_lineBreaks_le 0 source.bytes
  rw [count_ofSource, ← source.length_bytes]
  omega

/-- A line starts at zero, or behind a byte that ends one. -/
theorem mem_starts_ofSource_iff {e : Nat} :
    e ∈ (ofSource source).starts ↔ e = 0 ∨ ∃ front b rest, source.bytes = front ++ b :: rest ∧
      endsLine b rest = true ∧ e = front.length + 1 := by
  show e ∈ 0 :: lineStartsFrom [] 0 source.bytes ↔ _
  simp only [List.mem_cons, mem_lineStartsFrom_iff, Nat.zero_add]

/-- No line starts behind the end of the source. -/
theorem le_size_of_mem_starts {e : Nat} (h : e ∈ (ofSource source).starts) : e ≤ source.size := by
  rcases (mem_starts_ofSource_iff source).mp h with rfl | ⟨front, b, rest, hbytes, -, rfl⟩
  · exact Nat.zero_le _
  · rw [← source.length_bytes, hbytes, List.length_append, List.length_cons]
    omega

/-- The starts of a source's lines strictly increase. -/
theorem pairwise_starts_ofSource : (ofSource source).starts.Pairwise (· < ·) := by
  refine List.pairwise_cons.mpr ⟨?_, pairwise_lineStartsFrom 0 source.bytes⟩
  intro e he
  obtain ⟨front, _, _, -, -, rfl⟩ := mem_lineStartsFrom_iff.mp he
  exact Nat.succ_pos _

/-- Where a property holds from some entry on, its first place is counted by the entries in
front that do not have it. -/
theorem findIdx_eq_countP {α : Type} {p : α → Bool} {entries : List α}
    (h : entries.Pairwise fun a b => p a = true → p b = true) :
    entries.findIdx p = entries.countP fun a => !p a := by
  induction h with
  | nil => rfl
  | @cons a later hlater _ ih =>
      rw [List.findIdx_cons, List.countP_cons, ih]
      cases ha : p a with
      | false => rfl
      | true =>
          -- All entries have the property, so there is nothing to count.
          have hnone : later.countP (fun b => !p b) = 0 := by
            rw [List.countP_eq_zero]
            intro b hb
            simp [hlater b hb ha]
          rw [hnone]
          rfl

/-- The line of an offset is counted by the line breaks that end at or before it. The table finds
it by a search among the starts, which are in order. -/
theorem index_ofSource (offset : Nat) :
    (ofSource source).index offset
      = (lineBreaks 0 source.bytes).countP fun lineBreak => lineBreak.stop ≤ offset := by
  have hsorted : (ofSource source).starts.Pairwise fun a b =>
      decide (offset < a) = true → decide (offset < b) = true := by
    refine (pairwise_starts_ofSource source).imp ?_
    intro a b hab
    simp only [decide_eq_true_eq]
    omega
  rw [index, findIdx_eq_countP hsorted, starts_ofSource, List.countP_cons, List.countP_map]
  have hzero : (!decide (offset < 0)) = true := by simp
  rw [if_pos hzero, Nat.add_sub_cancel]
  refine List.countP_congr ?_
  intro lineBreak _
  simp [Function.comp]

/-- The line of an offset starts at or before it, and the next line starts behind it. This is what
a search in the table for the last start up to the offset finds. -/
theorem exists_start (offset : Nat) :
    ∃ start, (ofSource source).starts[(ofSource source).index offset]? = some start ∧
      (ofSource source).startAt ((ofSource source).index offset) = start ∧ start ≤ offset ∧
      ∀ next, (ofSource source).starts[(ofSource source).index offset + 1]? = some next →
        offset < next := by
  have hfirst : (ofSource source).starts = 0 :: lineStartsFrom [] 0 source.bytes := rfl
  have hpos : 0 < (ofSource source).starts.findIdx (offset < ·) := by
    rw [hfirst, List.findIdx_cons]
    simp
  have hle : (ofSource source).starts.findIdx (offset < ·) ≤ (ofSource source).starts.length :=
    List.findIdx_le_length
  -- The line of the offset is the last one in front of those that start behind the offset.
  have hlt : (ofSource source).index offset < (ofSource source).starts.findIdx (offset < ·) :=
    Nat.sub_lt hpos Nat.one_pos
  have hget := List.getElem?_eq_getElem (Nat.lt_of_lt_of_le hlt hle)
  refine ⟨_, hget, ?_, ?_, ?_⟩
  · rw [startAt, hget]
    rfl
  · have hnot := List.not_of_lt_findIdx hlt
    simpa using hnot
  · intro next hnext
    have hindex : (ofSource source).index offset + 1
        = (ofSource source).starts.findIdx (offset < ·) := Nat.sub_add_cancel hpos
    obtain ⟨hbound, rfl⟩ := List.getElem?_eq_some_iff.mp hnext
    have hfound := List.findIdx_getElem (w := hindex ▸ hbound)
    simpa [hindex] using hfound

/-- A line further on starts no earlier. -/
theorem le_of_getElem?_starts {i j a b : Nat} (hij : i ≤ j)
    (ha : (ofSource source).starts[i]? = some a) (hb : (ofSource source).starts[j]? = some b) :
    a ≤ b := by
  obtain ⟨hi, rfl⟩ := List.getElem?_eq_some_iff.mp ha
  obtain ⟨hj, rfl⟩ := List.getElem?_eq_some_iff.mp hb
  rcases Nat.lt_or_eq_of_le hij with hlt | rfl
  · exact Nat.le_of_lt
      (List.pairwise_iff_getElem.mp (pairwise_starts_ofSource source) i j hi hj hlt)
  · exact Nat.le_refl _

/-- A line that starts at or before an offset starts at or before the line of the offset. So the
line of an offset is the last one that starts there or in front. -/
theorem le_startAt_index {e offset : Nat} (he : e ∈ (ofSource source).starts) (hle : e ≤ offset) :
    e ≤ (ofSource source).startAt ((ofSource source).index offset) := by
  obtain ⟨start, hget, hstart, -, hnext⟩ := exists_start source offset
  obtain ⟨k, hk⟩ := List.mem_iff_getElem?.mp he
  rw [hstart]
  by_cases hindex : k ≤ (ofSource source).index offset
  · exact le_of_getElem?_starts source hindex hk hget
  · -- The next line starts behind the offset, and this one no earlier than the next.
    have hlater : (ofSource source).index offset + 1 ≤ k := Nat.not_le.mp hindex
    have hlength := (List.getElem?_eq_some_iff.mp hk).1
    have hget' := List.getElem?_eq_getElem (Nat.lt_of_le_of_lt hlater hlength)
    have hbehind := hnext _ hget'
    have hback := le_of_getElem?_starts source hlater hget' hk
    omega

end LineTable

end Lexis
