/-
Offsets and positions. A text is a list of bytes; its lines start at its beginning and after each
line break. The table of line starts is read off the characters of the text, each of which takes as
many bytes as its encoding has; only a line break has the byte of a line break in its encoding, so
the table holds exactly the line starts, in increasing order. The position of an offset is found in
the table: the line tells how many line breaks are before the offset, the column how far the offset
is from the start of its line. Positions are ordered as their offsets are. Only the last offset there
is has no column of its own on the first line: counting from one, the column would not fit in a word.
-/
import Mathlib.Data.List.Basic
import Mathlib.Data.List.TakeWhile
import Residual.Source.Span

namespace Residual

/-! ## Bytes -/

/-- The bytes of a text. -/
def bytes (text : String) : List UInt8 := text.toUTF8.data.toList

/-- The byte of a line break. -/
def newlineByte : UInt8 := 10

theorem bytes_eq_flatMap (text : String) : bytes text = text.toList.flatMap String.utf8EncodeChar := by
  rw [bytes, String.toUTF8, ← String.utf8Encode_toList, List.utf8Encode, List.toList_data_toByteArray]

/-- The bytes of every other character are no ASCII characters, or one that is not a line break. -/
theorem newlineByte_notMem_utf8EncodeChar {c : Char} (h : c ≠ '\n') :
    newlineByte ∉ String.utf8EncodeChar c := by
  have hne : c.val.toNat ≠ 10 := fun heq => h (Char.ext (UInt32.toNat_inj.1 heq))
  have hofNat (n : Nat) (hn : n < 256) (h10 : n ≠ 10) : newlineByte ≠ UInt8.ofNat n := by
    intro heq
    have := congrArg UInt8.toNat heq
    rw [UInt8.toNat_ofNat_of_lt' hn] at this
    exact h10 this.symm
  unfold String.utf8EncodeChar
  simp only
  split
  · simp only [List.mem_singleton]
    exact hofNat _ (by omega) hne
  · split
    · simp only [List.mem_cons, List.not_mem_nil, or_false, not_or]
      exact ⟨hofNat _ (by omega) (by omega), hofNat _ (by omega) (by omega)⟩
    · split
      · simp only [List.mem_cons, List.not_mem_nil, or_false, not_or]
        exact ⟨hofNat _ (by omega) (by omega), hofNat _ (by omega) (by omega),
          hofNat _ (by omega) (by omega)⟩
      · simp only [List.mem_cons, List.not_mem_nil, or_false, not_or]
        exact ⟨hofNat _ (by omega) (by omega), hofNat _ (by omega) (by omega),
          hofNat _ (by omega) (by omega), hofNat _ (by omega) (by omega)⟩

/-! ## The table of line starts -/

/-- A line starts at the beginning of a text and after each of its line breaks. -/
def IsLineStart (text : String) (start : Nat) : Prop :=
  start = 0 ∨ ∃ i, (bytes text)[i]? = some newlineByte ∧ start = i + 1

/-- The table is the same whether the text is read by characters or by bytes. -/
theorem lineStartsFrom_eq_idxsOf (cs : List Char) (offset : Nat) :
    lineStartsFrom cs offset = (cs.flatMap String.utf8EncodeChar).idxsOf newlineByte (offset + 1) := by
  induction cs generalizing offset with
  | nil => rfl
  | cons c cs ih =>
    have hnext : offset + c.utf8Size + 1 = offset + 1 + (String.utf8EncodeChar c).length := by
      rw [String.length_utf8EncodeChar, Nat.add_right_comm]
    rw [List.flatMap_cons, List.idxsOf_append, lineStartsFrom, ih, hnext]
    split
    · rename_i hc
      subst hc
      rfl
    · rename_i hc
      have hnone : (String.utf8EncodeChar c).idxsOf newlineByte (offset + 1) = [] := by
        rw [List.idxsOf_eq_nil_iff]
        intro b hb
        exact beq_eq_false_iff_ne.2 fun heq => newlineByte_notMem_utf8EncodeChar hc (heq ▸ hb)
      rw [hnone, List.nil_append]

namespace SourceFile

variable (text : String) (path : Option SourcePath)

theorem starts_ofText : (ofText text path).starts = 0 :: (bytes text).idxsOf newlineByte 1 := by
  rw [ofText, lineStartsFrom_eq_idxsOf, ← bytes_eq_flatMap]

theorem pairwise_starts : (ofText text path).starts.Pairwise (· < ·) := by
  rw [starts_ofText]
  exact .cons (fun s hs => List.ge_of_mem_idxsOf s hs) List.pairwise_idxsOf

theorem mem_starts {start : Nat} : start ∈ (ofText text path).starts ↔ IsLineStart text start := by
  rw [starts_ofText, List.mem_cons, IsLineStart, List.mem_idxsOf_iff_getElem_sub_pos]
  constructor
  · rintro (rfl | ⟨hpos, hlt, hbreak⟩)
    · exact .inl rfl
    · refine .inr ⟨start - 1, ?_, by omega⟩
      rw [List.getElem?_eq_getElem hlt, eq_of_beq hbreak]
  · rintro (rfl | ⟨i, hi, rfl⟩)
    · exact .inl rfl
    · obtain ⟨hlt, hbreak⟩ := List.getElem?_eq_some_iff.1 hi
      exact .inr ⟨Nat.le_add_left 1 i, hlt, beq_iff_eq.2 hbreak⟩

/-- The lines that start at or before an offset are the first one and those after the line breaks
before the offset. -/
theorem takeWhile_starts (offset : Nat) :
    (ofText text path).starts.takeWhile (· ≤ offset) =
      0 :: ((bytes text).take offset).idxsOf newlineByte 1 := by
  have hbefore : ∀ s ∈ ((bytes text).take offset).idxsOf newlineByte 1,
      decide (s ≤ offset) = true := by
    intro s hs
    have hlt := List.lt_add_of_mem_idxsOf s hs
    have hlength := List.length_take_le offset (bytes text)
    exact decide_eq_true (by omega)
  have hbehind : (((bytes text).drop offset).idxsOf newlineByte
      (1 + ((bytes text).take offset).length)).takeWhile (· ≤ offset) = [] := by
    rcases Nat.lt_or_ge offset (bytes text).length with hlt | hge
    · rw [List.length_take, Nat.min_eq_left hlt.le, List.takeWhile_eq_nil_iff]
      intro hpos hle
      have hge := List.ge_of_mem_idxsOf _ (List.get_mem _ ⟨0, hpos⟩)
      exact absurd (of_decide_eq_true hle) (by omega)
    · rw [List.drop_eq_nil_of_le hge, List.idxsOf_nil, List.takeWhile_nil]
  have hbytes : (bytes text).idxsOf newlineByte 1 = ((bytes text).take offset).idxsOf newlineByte 1 ++
      ((bytes text).drop offset).idxsOf newlineByte (1 + ((bytes text).take offset).length) := by
    rw [← List.idxsOf_append, List.take_append_drop]
  rw [starts_ofText, hbytes, List.takeWhile_cons_of_pos (by simp),
    List.takeWhile_append_of_pos hbefore, hbehind, List.append_nil]

/-! ## Positions -/

theorem line_position (offset : Nat) :
    ((ofText text path).position offset).line = ((bytes text).take offset).count newlineByte + 1 := by
  rw [position, takeWhile_starts, List.length_cons, List.length_idxsOf]

/-- The line of an offset has its start in the table, at or before the offset; the column counts
from there. -/
theorem exists_start_position (offset : Nat) :
    ∃ start, (ofText text path).starts[((ofText text path).position offset).line - 1]? = some start ∧
      ((ofText text path).position offset).column = (offset - start + 1) % wordBound ∧
      start ≤ offset := by
  have hne : (ofText text path).starts.takeWhile (· ≤ offset) ≠ [] := by
    rw [takeWhile_starts]
    exact List.cons_ne_nil _ _
  obtain ⟨start, hlast⟩ := Option.ne_none_iff_exists'.1 (mt List.getLast?_eq_none_iff.1 hne)
  have hmem := List.mem_takeWhile_imp (List.mem_of_getLast? hlast)
  have hle : start ≤ offset := by simpa using hmem
  refine ⟨start, ?_, ?_, hle⟩
  · rw [List.getLast?_eq_getElem?] at hlast
    obtain ⟨behind, heq⟩ := List.takeWhile_prefix (l := (ofText text path).starts) (· ≤ offset)
    have hlt := (List.getElem?_eq_some_iff.1 hlast).1
    rw [← heq]
    exact (List.getElem?_append_left hlt).trans hlast
  · rw [position, List.getLastD_eq_getLast?, hlast, Option.getD_some]

/-- An offset that has a column: the distance to the start of its line, counted from one, fits in a
word. Only the last word does not on the first line. -/
def Fits (text : String) (offset : Nat) : Prop :=
  offset + 1 < wordBound ∨ offset + 1 = wordBound ∧ newlineByte ∈ (bytes text).take offset

/-- The start of a line with a line break before it is not the start of the text. -/
theorem pos_of_newlineByte_mem {offset start : Nat} (hmem : newlineByte ∈ (bytes text).take offset)
    (hstart : (ofText text path).starts[((ofText text path).position offset).line - 1]? = some start) :
    0 < start := by
  have hcount := List.count_pos_iff.2 hmem
  rw [line_position, Nat.add_sub_cancel] at hstart
  obtain ⟨hlt, heq⟩ := List.getElem?_eq_some_iff.1 hstart
  have hfirst : 0 < (ofText text path).starts.length := Nat.lt_of_le_of_lt (Nat.zero_le _) hlt
  have := List.pairwise_iff_getElem.1 (pairwise_starts text path) 0 _ hfirst hlt hcount
  omega

theorem exists_start_column {offset : Nat} (hfits : Fits text offset) :
    ∃ start, (ofText text path).starts[((ofText text path).position offset).line - 1]? = some start ∧
      start + ((ofText text path).position offset).column = offset + 1 ∧ start ≤ offset := by
  obtain ⟨start, hstart, hcolumn, hle⟩ := exists_start_position text path offset
  have hlt : offset - start + 1 < wordBound := by
    rcases hfits with hlt | ⟨heq, hmem⟩
    · omega
    · have := pos_of_newlineByte_mem text path hmem hstart
      omega
  rw [Nat.mod_eq_of_lt hlt] at hcolumn
  exact ⟨start, hstart, by omega, hle⟩

/-- On the first line the last word is one column behind the last one. -/
theorem position_last (hfirst : newlineByte ∉ (bytes text).take (wordBound - 1)) :
    (ofText text path).position (wordBound - 1) = ⟨1, 0⟩ := by
  have hnone : ((bytes text).take (wordBound - 1)).idxsOf newlineByte 1 = [] := by
    rw [List.idxsOf_eq_nil_iff]
    intro b hb
    exact beq_eq_false_iff_ne.2 fun heq => hfirst (heq ▸ hb)
  rw [position, takeWhile_starts, hnone]
  rfl

end SourceFile

/-- In an increasing list, the elements up to a bound are as many as there are in front of the
first one beyond it. -/
theorem le_iff_lt_length_takeWhile {l : List Nat} (hl : l.Pairwise (· < ·)) (bound : Nat) {i s : Nat}
    (hs : l[i]? = some s) : s ≤ bound ↔ i < (l.takeWhile (· ≤ bound)).length := by
  induction l generalizing i with
  | nil => cases hs
  | cons a l ih =>
    obtain ⟨ha, hl⟩ := List.pairwise_cons.1 hl
    by_cases hle : a ≤ bound
    · rw [List.takeWhile_cons_of_pos (by simpa using hle), List.length_cons]
      cases i with
      | zero =>
        cases hs
        simp [hle]
      | succ i => simpa using ih hl hs
    · rw [List.takeWhile_cons_of_neg (by simpa using hle)]
      cases i with
      | zero =>
        cases hs
        simp [hle]
      | succ i =>
        have hlt := ha s (List.mem_of_getElem? (by simpa using hs))
        constructor
        · omega
        · intro h
          cases h

/-- Positions in the order of a text: by line, and on the same line by column. -/
def Position.Precedes (p q : Position) : Prop :=
  p.line < q.line ∨ p.line = q.line ∧ p.column < q.column

/-- What the position of an offset tells about a text with its table of line starts. -/
structure SourceFile.Locates (file : SourceFile) (text : String) (offset : Nat) (p : Position)
    (start : Nat) : Prop where
  /-- The table is divided at the line: the lines up to this one start at or before the offset, the
  others behind it. -/
  divides : ∀ i s, file.starts[i]? = some s → (s ≤ offset ↔ i < p.line)
  line_pos : 0 < p.line
  /-- The start of the line is in the table. -/
  start_eq : file.starts[p.line - 1]? = some start
  start_le : start ≤ offset
  line_eq : p.line = 1 + ((bytes text).take offset).count newlineByte
  column_eq : p.column = 1 + (offset - start)
  isLineStart : IsLineStart text start
  /-- No line starts between the start of this one and the offset. -/
  last : ∀ s, IsLineStart text s → s ≤ offset → s ≤ start

open SourceFile in
theorem locates_position (text : String) (path : Option SourcePath) {offset : Nat}
    (hfits : Fits text offset) :
    ∃ start, (ofText text path).Locates text offset ((ofText text path).position offset) start := by
  obtain ⟨start, hstart, hcolumn, hle⟩ := exists_start_column text path hfits
  have hdivides : ∀ i s, (ofText text path).starts[i]? = some s →
      (s ≤ offset ↔ i < ((ofText text path).position offset).line) := fun i s =>
    le_iff_lt_length_takeWhile (pairwise_starts text path) offset
  have hline := line_position text path offset
  refine ⟨start, hdivides, by omega, hstart, hle, by omega, by omega,
    (mem_starts text path).1 (List.mem_of_getElem? hstart), fun s hs hsle => ?_⟩
  -- a line start that is not behind the offset stands in the table before that of the line
  obtain ⟨i, hi⟩ := List.getElem?_of_mem ((mem_starts text path).2 hs)
  have hlt := (hdivides i s hi).1 hsle
  rcases Nat.lt_or_eq_of_le (Nat.le_sub_one_of_lt hlt) with hbefore | hsame
  · obtain ⟨hilt, hieq⟩ := List.getElem?_eq_some_iff.1 hi
    obtain ⟨hjlt, hjeq⟩ := List.getElem?_eq_some_iff.1 hstart
    have := List.pairwise_iff_getElem.1 (pairwise_starts text path) i _ hilt hjlt hbefore
    omega
  · rw [hsame, hstart] at hi
    cases hi
    exact Nat.le_refl _

open SourceFile in
theorem precedes_position (text : String) (path : Option SourcePath) {a b : Nat} (hab : a < b)
    (hfits : Fits text b) :
    ((ofText text path).position a).Precedes ((ofText text path).position b) := by
  have hbefore : Fits text a := .inl (by rcases hfits with h | ⟨h, -⟩ <;> omega)
  obtain ⟨start, hstart, hcolumn, -⟩ := exists_start_column text path hbefore
  obtain ⟨start', hstart', hcolumn', -⟩ := exists_start_column text path hfits
  have hle : ((ofText text path).position a).line ≤ ((ofText text path).position b).line := by
    rw [line_position, line_position, Nat.add_le_add_iff_right]
    exact (List.take_prefix_take_left hab.le).sublist.count_le newlineByte
  rcases Nat.lt_or_eq_of_le hle with hlt | heq
  · exact .inl hlt
  · -- on one line both columns count from the same start
    rw [heq, hstart'] at hstart
    cases hstart
    exact .inr ⟨heq, by omega⟩

/-- An offset that fits has a position, also behind the end of the text: its line has a start in the
table, and the offset is not before that start. The line is one more than the line breaks before the
offset, the column one more than the distance to the last line start that is not behind the offset.
Positions are in the order of their offsets. The one word that does not fit, the last one in a text
without a line break, has column zero of the first line. -/
theorem position_corresponds (text : String) (path : Option SourcePath) :
    (∀ offset, SourceFile.Fits text offset → ∃ start, (SourceFile.ofText text path).Locates text offset
      ((SourceFile.ofText text path).position offset) start) ∧
    (∀ a b, a < b → SourceFile.Fits text b → ((SourceFile.ofText text path).position a).Precedes
      ((SourceFile.ofText text path).position b)) ∧
    ∀ offset, offset < wordBound → ¬ SourceFile.Fits text offset →
      (SourceFile.ofText text path).position offset = ⟨1, 0⟩ := by
  refine ⟨fun _ => locates_position text path, fun _ _ => precedes_position text path, ?_⟩
  intro offset hlt hnot
  have hlast : offset = wordBound - 1 := by
    have : ¬ offset + 1 < wordBound := fun h => hnot (.inl h)
    omega
  subst hlast
  exact SourceFile.position_last text path fun hmem => hnot (.inr ⟨rfl, hmem⟩)

/-- An empty line, a character of two bytes, offsets behind the end of the text, and the last word. -/
theorem position_corresponds_empty_line :
    [0, 1, 2, 3, 4, 5, 6, 9].map (SourceFile.ofText "a\n\né\n" none).position =
      [⟨1, 1⟩, ⟨1, 2⟩, ⟨2, 1⟩, ⟨3, 1⟩, ⟨3, 2⟩, ⟨3, 3⟩, ⟨4, 1⟩, ⟨4, 4⟩] ∧
    (∃ start, (SourceFile.ofText "a\n\né\n" none).Locates "a\n\né\n" 9
      ((SourceFile.ofText "a\n\né\n" none).position 9) start) ∧
    ((SourceFile.ofText "a\n\né\n" none).position 5).Precedes
      ((SourceFile.ofText "a\n\né\n" none).position 6) ∧
    (SourceFile.ofText "a" none).position (wordBound - 1) = ⟨1, 0⟩ :=
  ⟨by decide, (position_corresponds _ none).1 9 (.inl (by decide)),
    (position_corresponds _ none).2.1 5 6 (by decide) (.inl (by decide)),
    (position_corresponds "a" none).2.2 _ (by decide) (by
      rintro (h | ⟨-, h⟩)
      · exact absurd h (by decide)
      · exact absurd (List.mem_of_mem_take h) (by decide))⟩

/-- The last word in an empty text: its column is not counted from one, and its position does not
come after that of the first byte. -/
theorem position_wraps :
    (SourceFile.ofText "" none).position (wordBound - 1) = ⟨1, 0⟩ ∧
    (¬ ∃ start, (SourceFile.ofText "" none).Locates "" (wordBound - 1)
      ((SourceFile.ofText "" none).position (wordBound - 1)) start) ∧
    ¬ ((SourceFile.ofText "" none).position 0).Precedes
      ((SourceFile.ofText "" none).position (wordBound - 1)) := by
  have hlast : (SourceFile.ofText "" none).position (wordBound - 1) = ⟨1, 0⟩ := by decide
  refine ⟨hlast, ?_, ?_⟩
  · rintro ⟨start, hlocates⟩
    have hcolumn := hlocates.column_eq
    rw [hlast] at hcolumn
    exact absurd hcolumn (by simp only; omega)
  · rw [hlast]
    rintro (h | ⟨-, h⟩)
    · exact absurd h (by decide)
    · exact absurd h (Nat.not_lt_zero _)

end Residual
