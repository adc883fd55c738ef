/-
Where lines are broken. In whatever width a document is laid out, its words are the same and stand in
the same order; at a place there is a space, or a line break and an indent. So if no word has a line
break in it and each place is followed by something that does not start with a space, what the layout
has done can be undone: each line break becomes a space again, together with the indent after it.

A document whose places all stand in groups is laid out on one line if that line fits.
-/
import Residual.Proofs.Width
import Residual.Doc

namespace Residual

/-! ## Undoing line breaks -/

/-- Each line break becomes a space, together with the spaces that follow it. -/
def unbreak : List Char → List Char
  | [] => []
  | c :: cs =>
    if c = '\n' then ' ' :: unbreak (cs.dropWhile (· = ' ')) else c :: unbreak cs
termination_by cs => cs.length
decreasing_by
  · exact Nat.lt_succ_of_le (List.dropWhile_suffix _).length_le
  · exact Nat.lt_succ_self _

theorem unbreak_nil : unbreak [] = [] := by rw [unbreak]

theorem unbreak_append {s : List Char} (hs : '\n' ∉ s) (cs : List Char) :
    unbreak (s ++ cs) = s ++ unbreak cs := by
  induction s with
  | nil => rfl
  | cons c s ih =>
    have hne : c ≠ '\n' := fun h => hs (h ▸ List.mem_cons_self)
    rw [List.cons_append, unbreak, if_neg hne, ih fun h => hs (List.mem_cons_of_mem c h),
      List.cons_append]

/-- The indent goes with its line break. -/
theorem unbreak_newline {cs : List Char} (hcs : cs.head? ≠ some ' ') (indent : Nat) :
    unbreak ('\n' :: (List.replicate indent ' ' ++ cs)) = ' ' :: unbreak cs := by
  have hdrop : (List.replicate indent ' ' ++ cs).dropWhile (· = ' ') = cs := by
    rw [List.dropWhile_append_of_pos fun c hc => by simp [List.eq_of_mem_replicate hc]]
    cases cs with
    | nil => rfl
    | cons c cs => exact List.dropWhile_cons_of_neg (by simpa using hcs)
  rw [unbreak, if_pos rfl, hdrop]

/-! ## Documents on one line -/

/-- The characters of laid out pieces. -/
def spell (ps : List Piece) : List Char := ps.flatMap (·.toString.toList)

namespace Doc

theorem toList_render (d : Doc) (width : Nat) : (d.render width).toList = spell (d.pieces width) := by
  rw [render, String.toList_join, List.flatMap_map, spell]

/-- The characters of a document on one line. -/
def chars : Doc → List Char
  | nil => []
  | text s => s.toList
  | line => [' ']
  | append a b => a.chars ++ b.chars
  | nest _ d => d.chars
  | group d => d.chars

/-- The document on one line. -/
def oneLine (d : Doc) : String := String.ofList d.chars

/-- The columns of a document on one line. -/
def columns : Doc → Nat
  | nil => 0
  | text s => Text.width s
  | line => 1
  | append a b => a.columns + b.columns
  | nest _ d => d.columns
  | group d => d.columns

theorem columns_le (d : Doc) : d.columns ≤ d.oneLine.utf8ByteSize := by
  induction d with
  | nil => exact Nat.le_refl _
  | text s =>
    rw [columns, oneLine, chars, String.ofList_toList]
    exact Text.width_le s
  | line => decide
  | append a b iha ihb =>
    rw [columns, oneLine, chars, String.ofList_append, String.utf8ByteSize_append]
    exact Nat.add_le_add iha ihb
  | nest k d ih => exact ih
  | group d ih => exact ih

/-! ## Words and places -/

/-- Whether the document, with something behind it that does not start with a space if `rest`, does not
start with a space. -/
def isSolidBefore : Doc → (rest : Bool) → Bool
  | nil, rest => rest
  | text s, rest => s.toList.head?.elim rest (· ≠ ' ')
  | line, _ => false
  | append a b, rest => a.isSolidBefore (b.isSolidBefore rest)
  | nest _ d, rest => d.isSolidBefore rest
  | group d, rest => d.isSolidBefore rest

/-- Whether no word has a line break in it, and what follows a place does not start with a space. -/
def isTidyBefore : Doc → (rest : Bool) → Bool
  | nil, _ => true
  | text s, _ => !s.toList.contains '\n'
  | line, rest => rest
  | append a b, rest => a.isTidyBefore (b.isSolidBefore rest) && b.isTidyBefore rest
  | nest _ d, rest => d.isTidyBefore rest
  | group d, rest => d.isTidyBefore rest

/-- Whether all places stand in groups. -/
def isEnclosed : Doc → Bool
  | nil | text _ | group _ => true
  | line => false
  | append a b => a.isEnclosed && b.isEnclosed
  | nest _ d => d.isEnclosed

/-- Whether there are no places. -/
def isRigid : Doc → Bool
  | nil | text _ => true
  | line => false
  | append a b => a.isRigid && b.isRigid
  | nest _ d => d.isRigid
  | group d => d.isRigid

/-- What is put together from the parts of a document does not see whether one of them is empty. -/
theorem cat_eq {α : Type} (F : Doc → α) (op : α → α → α) (hleft : ∀ x, op (F nil) x = x)
    (hright : ∀ x, op x (F nil) = x) (happend : ∀ a b, F (append a b) = op (F a) (F b)) (a b : Doc) :
    F (a ++ b) = op (F a) (F b) := by
  show F (a.cat b) = _
  unfold Doc.cat
  split
  · exact (hleft _).symm
  · exact (hright _).symm
  · exact happend a b

section

variable (a b : Doc) (rest : Bool)

@[simp] theorem chars_cat : (a ++ b).chars = a.chars ++ b.chars :=
  cat_eq chars (· ++ ·) List.nil_append List.append_nil (fun _ _ => rfl) a b

@[simp] theorem isEnclosed_cat : (a ++ b).isEnclosed = (a.isEnclosed && b.isEnclosed) :=
  cat_eq isEnclosed and Bool.true_and Bool.and_true (fun _ _ => rfl) a b

@[simp] theorem isRigid_cat : (a ++ b).isRigid = (a.isRigid && b.isRigid) :=
  cat_eq isRigid and Bool.true_and Bool.and_true (fun _ _ => rfl) a b

@[simp] theorem isSolidBefore_cat :
    (a ++ b).isSolidBefore rest = a.isSolidBefore (b.isSolidBefore rest) :=
  congrFun (cat_eq isSolidBefore (· ∘ ·) (fun _ => rfl) (fun _ => rfl) (fun _ _ => rfl) a b) rest

@[simp] theorem isTidyBefore_cat : (a ++ b).isTidyBefore rest =
    (a.isTidyBefore (b.isSolidBefore rest) && b.isTidyBefore rest) := by
  show (a.cat b).isTidyBefore rest = _
  unfold Doc.cat
  split
  · rfl
  · exact (Bool.and_true _).symm
  · rfl

end

theorem newline_notMem_chars {d : Doc} {rest : Bool} (h : d.isTidyBefore rest = true) :
    '\n' ∉ d.chars := by
  induction d generalizing rest with
  | nil => exact List.not_mem_nil
  | text s => simpa [isTidyBefore, chars] using h
  | line => decide
  | append a b iha ihb =>
    rw [isTidyBefore, Bool.and_eq_true] at h
    rw [chars, List.mem_append, not_or]
    exact ⟨iha h.1, ihb h.2⟩
  | nest k d ih => exact ih h
  | group d ih => exact ih h

end Doc

/-! ## Layout in any width -/

/-- What comes behind a document is `tail` once its line breaks are undone, from whatever column on,
and does not start with a space if it is `solid`. -/
structure Rest.Unbreaks (rest : Rest) (solid : Bool) (tail : List Char) : Prop where
  unbreak_eq : ∀ column, unbreak (spell (rest.pieces column)) = tail
  head?_ne : solid = true → ∀ column, (spell (rest.pieces column)).head? ≠ some ' '

namespace Doc

variable {width : Nat} {d : Doc} {flat : Bool} {indent : Nat} {rest : Rest} {tail : List Char}

/-- With the line breaks undone, a tidy document is laid out as on one line. -/
theorem unbreaks_before {solid : Bool} (htidy : d.isTidyBefore solid = true)
    (hrest : rest.Unbreaks solid tail) :
    (d.before width flat indent rest).Unbreaks (d.isSolidBefore solid) (d.chars ++ tail) := by
  induction d generalizing flat solid indent rest tail with
  | nil => exact ⟨hrest.unbreak_eq, hrest.head?_ne⟩
  | text s =>
    have hs : '\n' ∉ s.toList := by simpa [isTidyBefore] using htidy
    refine ⟨fun column => ?_, fun h column => ?_⟩
    · show unbreak (s.toList ++ spell (rest.pieces _)) = _
      rw [unbreak_append hs, hrest.unbreak_eq, chars]
    · show (s.toList ++ spell (rest.pieces _)).head? ≠ _
      rw [isSolidBefore] at h
      cases hchars : s.toList with
      | nil =>
        rw [hchars] at h
        exact hrest.head?_ne h _
      | cons c cs =>
        rw [hchars] at h
        simpa using h
  | line =>
    refine ⟨fun column => ?_, fun h => by cases h⟩
    cases flat with
    | true =>
      show unbreak ([' '] ++ spell (rest.pieces _)) = _
      rw [unbreak_append (by decide), hrest.unbreak_eq, chars]
    | false =>
      show unbreak ((Piece.newline _).toString.toList ++ spell (rest.pieces _)) = _
      rw [Piece.toString, String.toList_ofList, List.cons_append,
        unbreak_newline (hrest.head?_ne htidy _), hrest.unbreak_eq, chars, List.singleton_append]
  | append a b iha ihb =>
    rw [isTidyBefore, Bool.and_eq_true] at htidy
    rw [chars, List.append_assoc]
    exact iha htidy.1 (ihb htidy.2 hrest)
  | nest k d ih => exact ⟨(ih htidy hrest).unbreak_eq, (ih htidy hrest).head?_ne⟩
  | group d ih =>
    exact ⟨fun column => (ih htidy hrest).unbreak_eq column,
      fun h column => (ih htidy hrest).head?_ne h column⟩

/-- What the layout in a width has done is undone. -/
theorem unbreak_render (h : d.isTidyBefore false = true) (width : Nat) :
    unbreak (d.render width).toList = d.chars := by
  have hdone : Rest.done.Unbreaks false [] := ⟨fun _ => unbreak_nil, fun h => by cases h⟩
  rw [toList_render, pieces, (unbreaks_before h hdone).unbreak_eq, List.append_nil]

/-- A document without places is laid out in the same way in every width. -/
theorem spell_before_of_isRigid (h : d.isRigid = true)
    (hrest : ∀ column, spell (rest.pieces column) = tail) (column : Nat) :
    spell ((d.before width flat indent rest).pieces column) = d.chars ++ tail := by
  induction d generalizing flat indent rest tail column with
  | nil => exact hrest column
  | text s =>
    show s.toList ++ spell (rest.pieces _) = _
    rw [hrest, chars]
  | line => cases h
  | append a b iha ihb =>
    rw [isRigid, Bool.and_eq_true] at h
    rw [chars, List.append_assoc]
    exact iha h.1 (ihb h.2 hrest) column
  | nest k d ih => exact ih h hrest column
  | group d ih => exact ih h hrest column

theorem render_of_isRigid (h : d.isRigid = true) (width : Nat) : d.render width = d.oneLine := by
  have hdone (column : Nat) : spell (Rest.done.pieces column) = [] := rfl
  rw [← String.toList_inj, toList_render, pieces, spell_before_of_isRigid h hdone, oneLine,
    String.toList_ofList, List.append_nil]

/-! ## Layout in a width that is enough -/

/-- What is left of a line fits if all of it does. -/
theorem fits_of_columns_le {rest : Nat → Bool} {more column : Nat}
    (hrest : ∀ c, c + more ≤ width → rest c = true) (hle : column + (d.columns + more) ≤ width) :
    d.fits width flat rest column = true := by
  induction d generalizing rest more column with
  | nil => exact hrest column (by simpa [columns] using hle)
  | text s =>
    rw [columns] at hle
    simp only [fits, Bool.and_eq_true, decide_eq_true_eq]
    exact ⟨by omega, hrest _ (by omega)⟩
  | line =>
    rw [columns] at hle
    simp only [fits, Bool.or_eq_true, Bool.and_eq_true, decide_eq_true_eq]
    exact .inr ⟨by omega, hrest _ (by omega)⟩
  | append a b iha ihb =>
    rw [columns] at hle
    exact iha (fun c (hc : c + (b.columns + more) ≤ width) => ihb hrest hc) (by omega)
  | nest k d ih => exact ih hrest hle
  | group d ih => exact ih hrest hle

end Doc

/-- What comes behind a document fits in `more` columns, and is `tail` there. -/
def Rest.FitsIn (rest : Rest) (width more : Nat) (tail : List Char) : Prop :=
  ∀ column, column + more ≤ width → rest.fits column = true ∧ spell (rest.pieces column) = tail

namespace Doc

variable {width : Nat} {d : Doc} {flat : Bool} {indent : Nat} {rest : Rest} {tail : List Char}

/-- Where all that comes fits, groups are laid out on one line. -/
theorem fitsIn_before {more : Nat} (h : flat = true ∨ d.isEnclosed = true)
    (hrest : rest.FitsIn width more tail) :
    (d.before width flat indent rest).FitsIn width (d.columns + more) (d.chars ++ tail) := by
  induction d generalizing flat indent more rest tail with
  | nil =>
    intro column hle
    exact hrest column (by simpa [columns] using hle)
  | text s =>
    intro column hle
    rw [columns] at hle
    obtain ⟨hfits, hspell⟩ := hrest (column + Text.width s) (by omega)
    refine ⟨?_, ?_⟩
    · simp only [before, fits, Bool.and_eq_true, decide_eq_true_eq]
      exact ⟨by omega, hfits⟩
    · show s.toList ++ spell (rest.pieces _) = _
      rw [hspell, chars]
  | line =>
    obtain rfl : flat = true := h.resolve_right (by decide)
    intro column hle
    rw [columns] at hle
    refine ⟨rfl, ?_⟩
    show [' '] ++ spell (rest.pieces _) = _
    rw [(hrest (column + 1) (by omega)).2, chars]
  | append a b iha ihb =>
    rw [isEnclosed, Bool.and_eq_true] at h
    rw [columns, chars, Nat.add_assoc, List.append_assoc]
    exact iha (h.imp_right And.left) (ihb (h.imp_right And.right) hrest)
  | nest k d ih => exact ih h hrest
  | group d ih =>
    intro column hle
    have hfits (flat : Bool) : d.fits width flat rest.fits column = true :=
      fits_of_columns_le (fun c hc => (hrest c hc).1) hle
    refine ⟨hfits false, ?_⟩
    show spell ((d.before width (flat || d.fits width true rest.fits column) indent rest).pieces
      column) = _
    rw [hfits true, Bool.or_true]
    exact (ih (.inl rfl) hrest column hle).2

/-- A document that fits on one line is laid out on it. -/
theorem render_of_columns_le (h : d.isEnclosed = true) (hle : d.columns ≤ width) :
    d.render width = d.oneLine := by
  have hdone : Rest.done.FitsIn width 0 [] := fun _ _ => ⟨rfl, rfl⟩
  rw [← String.toList_inj, toList_render, pieces, oneLine, String.toList_ofList,
    (fitsIn_before (.inr h) hdone 0 (by omega)).2, List.append_nil]

end Doc

end Residual
