/-
A text takes no more columns than bytes. A character that forms no sign with its neighbours takes at
most as many columns as its encoding has bytes, for the wide characters are far beyond the ASCII ones.
The one exception is a character of one byte to which a selector gives the form of an emoji, of two
columns; but then the selector, which takes no column, has bytes to spare. So the columns counted so
far are compared with the bytes together with what a pending selector has to spare.
-/
import Mathlib.Tactic.SplitIfs
import Residual.Text.Width

namespace Residual.Text

/-! ## Sizes of characters -/

theorem utf8Size_eq (c : Char) : c.utf8Size =
    if c.toNat ≤ 0x7f then 1 else if c.toNat ≤ 0x7ff then 2 else if c.toNat ≤ 0xffff then 3 else 4 := by
  simp only [Char.utf8Size, UInt32.le_iff_toNat_le]
  rfl

theorem le_of_inRanges {rs : List (Nat × Nat)} {least n : Nat}
    (hleast : rs.all (least ≤ ·.1) = true) (h : inRanges rs n = true) : least ≤ n := by
  induction rs with
  | nil => cases h
  | cons r rs ih =>
    simp only [List.all_cons, Bool.and_eq_true, decide_eq_true_eq] at hleast
    rw [inRanges] at h
    split at h
    · exact Nat.le_trans hleast.1 (of_decide_eq_true h)
    · exact ih hleast.2 h

theorem three_le_utf8Size {c : Char} (h : 0x800 ≤ c.toNat) : 3 ≤ c.utf8Size := by
  rw [utf8Size_eq]
  split_ifs <;> omega

theorem columns_le (c : Char) : columns c ≤ c.utf8Size := by
  unfold columns
  split
  · exact Nat.zero_le _
  · split
    · rename_i hwide
      have hwide : 0x1100 ≤ c.toNat := le_of_inRanges (by decide) hwide
      have hsize := three_le_utf8Size (c := c) (by omega)
      omega
    · split
      · rename_i hc
        subst hc
        decide
      · exact c.utf8Size_pos

/-! ## Signs of several characters -/

section

variable {c : Char} {r : Int × Shape}

theorem beforeLigature_le {l : Ligature} {isJoined : Bool}
    (h : beforeLigature l isJoined c = some r) : r.1 ≤ 1 := by
  cases l <;> simp only [beforeLigature] at h <;> split_ifs at h <;> cases h <;> simp

theorem beforeTags_le {letters digits : Nat} (h : beforeTags letters digits c = some r) :
    r.1 ≤ 1 := by
  simp only [beforeTags] at h
  split_ifs at h <;> cases h <;> simp

theorem beforeJoined_le (h : beforeJoined c = some r) : r.1 ≤ 1 := by
  simp only [beforeJoined] at h
  split_ifs at h <;> cases h <;> simp

/-- Only a regional indicator may count for more than one column, and it has four bytes. -/
theorem combine?_le {next : Shape} (h : combine? next c = some r) : r.1 ≤ c.utf8Size := by
  have hpos := c.utf8Size_pos
  cases next with
  | ligature l isJoined =>
    have := beforeLigature_le h
    omega
  | joined =>
    have := beforeJoined_le h
    omega
  | joinedTags letters digits =>
    have := beforeTags_le h
    omega
  | kiratE =>
    simp only [combine?] at h
    split at h <;> cases h <;> simp only <;> omega
  | joinedPairs =>
    simp only [combine?] at h
    split_ifs at h with hregional
    · cases h
      simp only [isRegionalIndicator, Bool.and_eq_true, decide_eq_true_eq] at hregional
      have := three_le_utf8Size (c := c) (by omega)
      simp only
      omega
    · cases h
      simp
  | plain | lineFeed | joinedKey => cases h
  | kiratAi | emoji | skinTone | regional | regionals | joinedRegional | joinedPairsAndOne =>
    simp only [combine?] at h
    split_ifs at h <;> cases h <;> simp <;> omega

end

theorem besideShape_le (next : Shape) (c : Char) : (besideShape next c).1 ≤ c.utf8Size := by
  have hpos := c.utf8Size_pos
  have hcombine (shape : Shape) : ((combine? shape c).getD (alone c)).1 ≤ c.utf8Size := by
    cases h : combine? shape c with
    | none =>
      have := columns_le c
      simp only [Option.getD_none, alone]
      omega
    | some r => exact combine?_le h
  unfold besideShape
  split
  · split
    · simp
    · simp only
      omega
  · split
    · exact hcombine _
    · split_ifs
      · simp
      · simp
      · exact hcombine _
    · exact hcombine _

/-! ## Selectors -/

namespace Follow

/-- The columns that a pending selector leaves for the form of an emoji. -/
def spare (next : Follow) : Int := if next.selectors.contains .emoji then 1 else 0

theorem spare_nonneg (next : Follow) : 0 ≤ next.spare := by
  unfold spare
  split <;> decide

theorem spare_le_one (next : Follow) : next.spare ≤ 1 := by
  unfold spare
  split <;> decide

@[simp] theorem spare_ofShape (shape : Shape) : (ofShape shape).spare = 0 := rfl

variable {next : Follow} {c : Char} {r : Int × Shape}

theorem form?_emoji_le (h : next.form? .emoji c = some r) : r.1 ≤ c.utf8Size + next.spare := by
  have hpos := c.utf8Size_pos
  simp only [form?, select?] at h
  split_ifs at h with hpending hform <;> cases h <;> simp only [spare, hpending, if_true] <;> omega

theorem form?_text_le (h : next.form? .text c = some r) : r.1 ≤ c.utf8Size := by
  have hpos := c.utf8Size_pos
  simp only [form?, select?] at h
  split_ifs at h
  cases h
  simp only
  omega

theorem form?_fullWidth_le (h : next.form? .fullWidth c = some r) : r.1 ≤ c.utf8Size := by
  simp only [form?, select?] at h
  split_ifs at h with hpending hquote
  cases h
  simp only [List.contains_eq_mem, List.mem_cons, List.not_mem_nil, or_false,
    decide_eq_true_eq] at hquote
  rcases hquote with rfl | rfl | rfl | rfl <;> decide

end Follow

theorem three_le_of_selector? {c : Char} {s : Selector} (h : selector? c = some s) :
    3 ≤ c.utf8Size := by
  unfold selector? at h
  split at h
  · decide
  · decide
  · decide
  · cases h

/-! ## Width -/

/-- A character adds no more columns than it has bytes, but for what a selector has to spare. -/
theorem step_le (c : Char) (next : Follow) :
    (step c next).1 + (step c next).2.spare ≤ c.utf8Size + next.spare := by
  have hspare := next.spare_nonneg
  unfold step
  simp only
  split
  · rename_i r hr
    have := Follow.form?_emoji_le hr
    simpa using this
  · split
    · rename_i s hs
      have hsize := three_le_of_selector? hs
      have := ((next.drop .emoji).push s).spare_le_one
      simp only
      omega
    · split
      · rename_i r hr
        have hle : r.1 ≤ c.utf8Size := by
          cases htext : (next.drop .emoji).form? .text c with
          | some r' =>
            rw [htext] at hr
            cases hr
            exact Follow.form?_text_le htext
          | none =>
            rw [htext] at hr
            exact Follow.form?_fullWidth_le hr
        simp only [Follow.spare_ofShape]
        omega
      · have := besideShape_le (((next.drop .emoji).drop .text).drop .fullWidth).shape c
        simp only [Follow.spare_ofShape]
        omega

theorem measure_le (cs : List Char) :
    (measure cs).1 + (measure cs).2.spare ≤ (String.ofList cs).utf8ByteSize := by
  induction cs with
  | nil => decide
  | cons c cs ih =>
    have hstep := step_le c (measure cs).2
    have hcons : measure (c :: cs) =
        ((measure cs).1 + (step c (measure cs).2).1, (step c (measure cs).2).2) := rfl
    simp only [hcons, String.ofList_cons, String.utf8ByteSize_append, String.utf8ByteSize_singleton]
    omega

/-- A text takes no more columns than bytes. -/
theorem width_le (s : String) : width s ≤ s.utf8ByteSize := by
  unfold width
  split
  · exact Nat.le_refl _
  · have hmeasure := measure_le s.toList
    have hspare := (measure s.toList).2.spare_nonneg
    rw [String.ofList_toList] at hmeasure
    omega

end Residual.Text
