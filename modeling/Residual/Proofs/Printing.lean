/-
Layout changes nothing but white space. Numbers, names and quoted strings have no line break in them
and do not start with a space; what stands at a place of a node's document starts with one of these or
with a mark. So the text of a node in any width is its text on one line once the line breaks are
undone. And all places stand in groups, so a node is printed on one line if that line fits.
-/
import Mathlib.Data.List.Basic
import Residual.Node.Printer
import Residual.Proofs.Breaking

namespace Residual

/-! ## Words -/

/-- Whether a text is not empty and has no white space in it. -/
def Text.isWord (s : String) : Bool := s ≠ "" && s.toList.all (!·.isWhitespace)

/-- Whether a text starts with something other than a space and has no line break in it. -/
def Text.isSolid (s : String) : Bool := s.toList.head?.any (· ≠ ' ') && !s.toList.contains '\n'

namespace Text

theorem isWord_ofList {cs : List Char} (hne : cs ≠ []) (h : ∀ c ∈ cs, c.isWhitespace = false) :
    isWord (String.ofList cs) = true := by
  simp only [isWord, String.toList_ofList, Bool.and_eq_true, List.all_eq_true, decide_eq_true_eq,
    Bool.not_eq_true']
  exact ⟨fun heq => hne (by simpa using congrArg String.toList heq), h⟩

theorem isWord_append {s t : String} (hs : isWord s = true) (ht : isWord t = true) :
    isWord (s ++ t) = true := by
  simp only [isWord, String.toList_append, List.all_append, Bool.and_eq_true, decide_eq_true_eq] at *
  refine ⟨fun heq => hs.1 (String.append_eq_empty_iff.1 heq).1, hs.2, ht.2⟩

theorem isSolid_of_isWord {s : String} (h : isWord s = true) : isSolid s = true := by
  simp only [isWord, Bool.and_eq_true, decide_eq_true_eq, List.all_eq_true, Bool.not_eq_true'] at h
  obtain ⟨hne, hall⟩ := h
  have hnewline : '\n' ∉ s.toList := fun hmem => by cases hall _ hmem
  cases hs : s.toList with
  | nil => exact absurd (String.toList_eq_nil_iff.1 hs) hne
  | cons c cs =>
    have hspace : c ≠ ' ' := by
      rintro rfl
      cases hall _ (hs ▸ List.mem_cons_self)
    rw [hs] at hnewline
    simp [isSolid, hs, hspace, hnewline]

end Text

theorem isWhitespace_digitChar (n : Nat) : n.digitChar.isWhitespace = false := by
  rcases Nat.lt_or_ge n 16 with hlt | hge
  · have hdigit : ∀ k < 16, k.digitChar.isWhitespace = false := by decide
    exact hdigit n hlt
  · rw [Nat.digitChar_eq_star.2 hge]
    rfl

theorem isWhitespace_of_mem_toDigits {b n : Nat} (hb : 1 < b) {c : Char} (hc : c ∈ Nat.toDigits b n) :
    c.isWhitespace = false := by
  induction n using Nat.strongRecOn with
  | ind n ih =>
    rw [Nat.toDigits_eq_if hb] at hc
    split at hc
    · rw [List.mem_singleton.1 hc]
      exact isWhitespace_digitChar n
    · rename_i hle
      rcases List.mem_append.1 hc with hc | hc
      · exact ih (n / b) (Nat.div_lt_self (by omega) hb) hc
      · rw [List.mem_singleton.1 hc]
        exact isWhitespace_digitChar _

namespace Number

theorem isWord_positional (c : Nat) (p : Int) : Text.isWord (positional c p) = true := by
  have hdigits {d : Char} (hd : d ∈ Nat.toDigits 10 c) : d.isWhitespace = false :=
    isWhitespace_of_mem_toDigits (by decide) hd
  unfold positional
  simp only
  split
  · refine Text.isWord_ofList (List.append_ne_nil_of_left_ne_nil Nat.toDigits_ne_nil _) fun d hd => ?_
    rcases List.mem_append.1 hd with hd | hd
    · exact hdigits hd
    · rw [List.eq_of_mem_replicate hd]
      rfl
  · have hpadded {k : Nat} {d : Char} (hd : d ∈ List.replicate k '0' ++ Nat.toDigits 10 c) :
        d.isWhitespace = false := by
      rcases List.mem_append.1 hd with hd | hd
      · rw [List.eq_of_mem_replicate hd]
        rfl
      · exact hdigits hd
    refine Text.isWord_ofList (by simp) fun d hd => ?_
    rcases List.mem_append.1 hd with hd | hd
    · exact hpadded (List.mem_of_mem_take hd)
    · rcases List.mem_cons.1 hd with rfl | hd
      · rfl
      · exact hpadded (List.mem_of_mem_drop hd)

theorem isWord_text (x : Float) : Text.isWord (text x) = true := by
  unfold text
  simp only
  split
  · decide
  · rename_i negative _
    cases negative <;> decide
  · rename_i negative _ _
    cases negative <;> decide
  · rename_i negative m q _ _
    cases negative with
    | true => exact Text.isWord_append (by decide) (isWord_positional _ _)
    | false =>
      rw [if_neg (by decide), String.empty_append]
      exact isWord_positional _ _

end Number

namespace Text

theorem newline_notMem_quotedChar (c : Char) : '\n' ∉ quotedChar c := by
  unfold quotedChar
  split
  iterate 6 decide
  · rename_i hnewline _ _ _
    split
    · have hhex : '\n' ∉ hexCode c := fun hmem => by
        cases isWhitespace_of_mem_toDigits (by decide) hmem
      simp [hhex]
    · simpa using fun heq => hnewline heq.symm

theorem isSolid_quoted (s : String) : isSolid (quoted s) = true := by
  have hnewline : '\n' ∉ s.toList.flatMap quotedChar := by
    rw [List.mem_flatMap]
    rintro ⟨c, -, hc⟩
    exact newline_notMem_quotedChar c hc
  simp [isSolid, quoted, hnewline]

end Text

theorem Literal.isSolid_text (value : Literal) : Text.isSolid value.text = true := by
  cases value with
  | bool b => cases b <;> decide
  | number x => exact Text.isSolid_of_isWord (Number.isWord_text x)
  | string s => exact Text.isSolid_quoted s

theorem Range.isWord_text (r : Range) : Text.isWord r.text = true :=
  Text.isWord_append (Text.isWord_append (Text.isWord_append (Text.isWord_append (by decide)
    (Number.isWord_text _)) (by decide)) (Number.isWord_text _)) (by decide)

/-! ## Parts of documents -/

namespace Doc

/-- A document that may stand behind any other: no word has a line break in it, what follows its
places does not start with a space, and the places stand in groups. -/
structure IsFit (d : Doc) : Prop where
  tidy : ∀ rest, d.isTidyBefore rest = true
  enclosed : d.isEnclosed = true

/-- A document that may stand at a place: besides, it does not start with a space. -/
structure IsSolid (d : Doc) : Prop extends IsFit d where
  solid : ∀ rest, d.isSolidBefore rest = true

theorem isFit_word {s : String} (h : s.toList.contains '\n' = false) : IsFit (word s) := by
  unfold word
  split
  · exact ⟨fun _ => rfl, rfl⟩
  · exact ⟨fun _ => by rw [isTidyBefore, h]; rfl, rfl⟩

theorem isSolid_word {s : String} (h : Text.isSolid s = true) : IsSolid (word s) := by
  rw [Text.isSolid, Bool.and_eq_true, Bool.not_eq_true'] at h
  refine ⟨isFit_word h.2, fun rest => ?_⟩
  unfold word
  split
  · rename_i hs
    subst hs
    cases h.1
  · rw [isSolidBefore]
    cases hhead : s.toList.head? with
    | none =>
      rw [hhead] at h
      cases h.1
    | some c =>
      rw [hhead] at h
      exact h.1

variable {a b d : Doc}

theorem IsFit.cat (ha : IsFit a) (hb : IsFit b) : IsFit (a ++ b) :=
  ⟨fun rest => by rw [isTidyBefore_cat, ha.tidy, hb.tidy]; rfl,
    by rw [isEnclosed_cat, ha.enclosed, hb.enclosed]; rfl⟩

theorem IsSolid.cat (ha : IsSolid a) (hb : IsFit b) : IsSolid (a ++ b) :=
  ⟨ha.toIsFit.cat hb, fun rest => by rw [isSolidBefore_cat, ha.solid]⟩

theorem nil_cat (d : Doc) : nil ++ d = d := rfl

/-- What starts solid and goes on fit is solid. -/
theorem IsSolid.concat {ds : List Doc} (hd : IsSolid d) (hds : ds.Forall IsFit) :
    IsSolid (concat (d :: ds)) := by
  rw [Doc.concat, List.foldl_cons, nil_cat]
  induction ds generalizing d with
  | nil => exact hd
  | cons e ds ih =>
    rw [List.forall_cons] at hds
    exact ih (hd.cat hds.1) hds.2

theorem IsFit.parens (h : IsFit d) : IsSolid d.parens :=
  (isSolid_word (by decide)).concat ⟨h, isFit_word (by decide)⟩

theorem IsSolid.parensIf (h : IsSolid d) (condition : Bool) : IsSolid (d.parensIf condition) := by
  cases condition with
  | true => exact h.parens
  | false => exact h

/-! ## Groups -/

section

variable (k : Int) (d : Doc) (rest : Bool)

@[simp] theorem isTidyBefore_indented : (d.indented k).isTidyBefore rest = d.isTidyBefore rest := by
  cases d <;> rfl

@[simp] theorem isTidyBefore_grouped : d.grouped.isTidyBefore rest = d.isTidyBefore rest := by
  cases d <;> rfl

@[simp] theorem isSolidBefore_grouped : d.grouped.isSolidBefore rest = d.isSolidBefore rest := by
  cases d <;> rfl

@[simp] theorem isEnclosed_grouped : d.grouped.isEnclosed = true := by
  cases d <;> rfl

end

/-- A document that may stand at a place; places of its own may stand in no group. -/
structure IsFlow (d : Doc) : Prop where
  tidy : ∀ rest, d.isTidyBefore rest = true
  solid : ∀ rest, d.isSolidBefore rest = true

theorem IsSolid.isFlow (h : IsSolid d) : IsFlow d := ⟨h.tidy, h.solid⟩

theorem IsFlow.grouped (h : IsFlow d) : IsSolid d.grouped :=
  ⟨⟨fun rest => by rw [isTidyBefore_grouped, h.tidy], isEnclosed_grouped d⟩,
    fun rest => by rw [isSolidBefore_grouped, h.solid]⟩

/-- Items with a place between them. -/
theorem isFlow_separated {sep : String} {items : List Doc} (hsep : sep.toList.contains '\n' = false)
    (hitems : ∀ d ∈ items, IsSolid d) (hne : items ≠ []) :
    IsFlow (separated (word sep ++ line) items) := by
  cases items with
  | nil => exact absurd rfl hne
  | cons d ds =>
    obtain ⟨hd, hds⟩ := List.forall_mem_cons.1 hitems
    replace hd := hd.isFlow
    clear hitems hne
    rw [separated]
    induction ds generalizing d with
    | nil => exact hd
    | cons e ds ih =>
      obtain ⟨he, hds⟩ := List.forall_mem_cons.1 hds
      refine ih (d ++ (word sep ++ line) ++ e) hds ⟨fun rest => ?_, fun rest => ?_⟩
      · simp only [isTidyBefore_cat, isSolidBefore_cat, hd.tidy, (isFit_word hsep).tidy, he.tidy,
          he.solid, isTidyBefore, Bool.and_self]
      · simp only [isSolidBefore_cat, hd.solid]

theorem isSolid_braced {items : List Doc} (k : Int) {sep : String}
    (hsep : sep.toList.contains '\n' = false) (hitems : ∀ d ∈ items, IsSolid d) :
    IsSolid (braced k sep items) := by
  unfold braced
  split
  · exact isSolid_word (by decide)
  · rename_i hne
    have hflow := isFlow_separated hsep hitems (by simpa using hne)
    have hopen : IsSolid (word "\x7b") := isSolid_word (by decide)
    have hclose : IsSolid (word "\x7d") := isSolid_word (by decide)
    refine IsFlow.grouped ⟨fun rest => ?_, fun rest => ?_⟩
    · simp only [concat, List.foldl_cons, List.foldl_nil, nil_cat, isTidyBefore_cat, hopen.tidy,
        isTidyBefore_indented, isTidyBefore, hclose.tidy, hclose.solid, hflow.tidy, hflow.solid,
        Bool.and_self]
    · simp only [concat, List.foldl_cons, List.foldl_nil, nil_cat, isSolidBefore_cat, hopen.solid]

theorem isSolid_listed {items : List Doc} (k : Int) (hitems : ∀ d ∈ items, IsSolid d) :
    IsSolid (grouped (concat [word "[", indented k (separated (word "," ++ line) items),
      word "]"])) := by
  have hopen : IsSolid (word "[") := isSolid_word (by decide)
  have hclose : IsSolid (word "]") := isSolid_word (by decide)
  by_cases hne : items = []
  · subst hne
    exact IsFlow.grouped (hopen.cat hclose.toIsFit).isFlow
  · have hflow := isFlow_separated (by decide : ",".toList.contains '\n' = false) hitems hne
    refine IsFlow.grouped ⟨fun rest => ?_, fun rest => ?_⟩
    · simp only [concat, List.foldl_cons, List.foldl_nil, nil_cat, isTidyBefore_cat, hopen.tidy,
        isTidyBefore_indented, hclose.tidy, hflow.tidy, Bool.and_self]
    · simp only [concat, List.foldl_cons, List.foldl_nil, nil_cat, isSolidBefore_cat, hopen.solid]

theorem isSolid_branch {condition thenBody elseBody : Doc} (k : Int) (hcondition : IsSolid condition)
    (hthen : IsSolid thenBody) (helse : IsSolid elseBody) :
    IsSolid (grouped (concat [word "if ", condition, word " then", indented k (line ++ thenBody),
      line, word "else", indented k (line ++ elseBody)])) := by
  have hif : IsSolid (word "if ") := isSolid_word (by decide)
  have hword : IsFit (word " then") := isFit_word (by decide)
  have hother : IsSolid (word "else") := isSolid_word (by decide)
  refine IsFlow.grouped ⟨fun rest => ?_, fun rest => ?_⟩
  · simp only [concat, List.foldl_cons, List.foldl_nil, nil_cat, isTidyBefore_cat, hif.tidy,
      hcondition.tidy, hword.tidy, hother.tidy, hother.solid, isTidyBefore_indented, isTidyBefore,
      hthen.tidy, hthen.solid, helse.tidy, helse.solid, Bool.and_self]
  · simp only [concat, List.foldl_cons, List.foldl_nil, nil_cat, isSolidBefore_cat, hif.solid]

theorem isSolid_body {items : List Doc} (k : Int) (hitems : ∀ d ∈ items, IsSolid d) :
    IsSolid (body k items) := by
  unfold body
  split
  · exact hitems _ List.mem_cons_self
  · exact isSolid_braced k (by decide) hitems

end Doc

/-! ## Names -/

namespace Node

mutual

/-- Whether all names that a node shows have a property: of identifiers, parameters, arguments and
fields, and of the members of enums. -/
def allNames (p : Name → Bool) : Node → Bool
  | lit .. | builtin .. | unknown _ => true
  | list _ items => allNamesList p items
  | record _ _ fields _ => allNamesDecls p fields
  | enum _ _ members => members.all p
  | fnType _ _ dom cod => allNames p dom && allNames p cod
  | selfType _ ty => allNames p ty
  | arg _ name ty => p name && allNames p ty
  | assign _ target value _ _ => allNames p target && allNames p value
  | ident _ name => p name
  | func _ param body => allNamesDecl p param && allNamesList p body
  | call _ f a => allNames p f && allNames p a
  | binOp _ _ lhs rhs => allNames p lhs && allNames p rhs
  | field _ name ty => p name && allNames p ty
  | matchOn _ scrutinee cases => allNames p scrutinee && allNamesCases p cases
  | whileDo _ condition body => allNames p condition && allNamesList p body
  | ifElse _ condition thenBody elseBody =>
    allNames p condition && allNamesList p thenBody && allNamesList p elseBody
  | block _ items => allNamesList p items
  | inst _ template body => allNames p template && allNamesList p body

def allNamesList (p : Name → Bool) : List Node → Bool
  | [] => true
  | n :: ns => allNames p n && allNamesList p ns

def allNamesDecl (p : Name → Bool) : Decl Node → Bool
  | ⟨_, name, ty⟩ => p name && allNames p ty

def allNamesDecls (p : Name → Bool) : List (Decl Node) → Bool
  | [] => true
  | d :: ds => allNamesDecl p d && allNamesDecls p ds

def allNamesCases (p : Name → Bool) : List (Case Node) → Bool
  | [] => true
  | ⟨_, pattern, body⟩ :: cs => allNames p pattern && allNamesList p body && allNamesCases p cs

end

/-! ## Nodes -/

open Doc

/-- Names stand at places. -/
theorem isSolid_name {name : Name} (h : Text.isWord name = true) : (word name).IsSolid :=
  isSolid_word (Text.isSolid_of_isWord h)

mutual

theorem isSolid_doc (k : Int) : ∀ n : Node, n.allNames Text.isWord = true → (n.doc k).IsSolid
  | lit _ value, _ => isSolid_word value.isSolid_text
  | list _ items, h => isSolid_listed k (isSolid_docs k items h)
  | record _ _ fields range, h => by
    have hfields := isSolid_braced k (by decide : ",".toList.contains '\n' = false)
      (isSolid_fieldDocs k fields h)
    cases range with
    | none => exact (isSolid_word (by decide)).concat ⟨isFit_word (by decide), hfields.toIsFit⟩
    | some r =>
      have hhead : Text.isWord "struct" = true := by decide
      have hhead := Text.isSolid_of_isWord (Text.isWord_append hhead r.isWord_text)
      exact (isSolid_word hhead).concat ⟨isFit_word (by decide), hfields.toIsFit⟩
  | enum _ _ members, h => by
    have hmembers : ∀ d ∈ members.map word, d.IsSolid := by
      rw [List.forall_mem_map]
      exact fun name hname => isSolid_name (List.all_eq_true.1 h name hname)
    exact (isSolid_word (by decide)).concat
      ⟨isFit_word (by decide), (isSolid_braced k (by decide) hmembers).toIsFit⟩
  | fnType _ _ dom cod, h => by
    obtain ⟨hdom, hcod⟩ := Bool.and_eq_true_iff.1 h
    exact ((isSolid_doc k dom hdom).parensIf _).concat
      ⟨isFit_word (by decide), (isSolid_doc k cod hcod).toIsFit⟩
  | selfType _ ty, h => (isSolid_word (by decide)).concat (isSolid_doc k ty h).parens.toIsFit
  | builtin _ b, _ => isSolid_word (by cases b <;> decide)
  | arg _ name ty, h => by
    obtain ⟨hname, hty⟩ := Bool.and_eq_true_iff.1 h
    exact (isSolid_name hname).concat (isSolid_doc k ty hty).parens.toIsFit
  | assign _ target value _ _, h => by
    obtain ⟨htarget, hvalue⟩ := Bool.and_eq_true_iff.1 h
    exact (isSolid_doc k target htarget).concat
      ⟨isFit_word (by decide), (isSolid_doc k value hvalue).toIsFit⟩
  | ident _ name, h => isSolid_name h
  | func _ param body, h => by
    obtain ⟨hparam, hbody⟩ := Bool.and_eq_true_iff.1 h
    exact (isSolid_word (by decide)).concat ⟨isFit_paramDoc k param hparam, isFit_word (by decide),
      (isSolid_body k (isSolid_docs k body hbody)).toIsFit⟩
  | call _ f a, h => by
    obtain ⟨hf, ha⟩ := Bool.and_eq_true_iff.1 h
    exact ((isSolid_doc k f hf).parensIf _).concat (isSolid_doc k a ha).parens.toIsFit
  | binOp _ op lhs rhs, h => by
    obtain ⟨hlhs, hrhs⟩ := Bool.and_eq_true_iff.1 h
    have hleft := (isSolid_doc k lhs hlhs).parensIf (lhs.needsParens op.precedence)
    rw [doc]
    split
    · exact hleft.concat
        ⟨isFit_word (by decide), ((isSolid_doc k rhs hrhs).parensIf _).toIsFit⟩
    · exact hleft.concat
        ⟨isFit_word (by cases op <;> decide), ((isSolid_doc k rhs hrhs).parensIf _).toIsFit⟩
  | field _ name ty, h => by
    obtain ⟨hname, hty⟩ := Bool.and_eq_true_iff.1 h
    exact (isSolid_name hname).concat ⟨isFit_word (by decide), (isSolid_doc k ty hty).toIsFit⟩
  | matchOn _ scrutinee cases, h => by
    obtain ⟨hscrutinee, hcases⟩ := Bool.and_eq_true_iff.1 h
    exact (isSolid_word (by decide)).concat ⟨(isSolid_doc k scrutinee hscrutinee).toIsFit,
      isFit_word (by decide), (isSolid_braced k (by decide) (isSolid_caseDocs k cases hcases)).toIsFit⟩
  | whileDo _ condition body, h => by
    obtain ⟨hcondition, hbody⟩ := Bool.and_eq_true_iff.1 h
    exact (isSolid_word (by decide)).concat ⟨(isSolid_doc k condition hcondition).toIsFit,
      isFit_word (by decide), (isSolid_braced k (by decide) (isSolid_docs k body hbody)).toIsFit⟩
  | ifElse _ condition thenBody elseBody, h => by
    obtain ⟨h, helse⟩ := Bool.and_eq_true_iff.1 h
    obtain ⟨hcondition, hthen⟩ := Bool.and_eq_true_iff.1 h
    exact isSolid_branch k (isSolid_doc k condition hcondition)
      (isSolid_body k (isSolid_docs k thenBody hthen)) (isSolid_body k (isSolid_docs k elseBody helse))
  | block _ items, h => isSolid_braced k (by decide) (isSolid_docs k items h)
  | inst _ template body, h => by
    obtain ⟨htemplate, hbody⟩ := Bool.and_eq_true_iff.1 h
    exact ((isSolid_doc k template htemplate).parensIf _).concat
      ⟨isFit_word (by decide), (isSolid_braced k (by decide) (isSolid_docs k body hbody)).toIsFit⟩
  | unknown _, _ => isSolid_word (by decide)

theorem isSolid_docs (k : Int) (ns : List Node) (h : allNamesList Text.isWord ns = true) :
    ∀ d ∈ docs k ns, d.IsSolid := by
  cases ns with
  | nil => exact List.forall_mem_nil _
  | cons n ns =>
    obtain ⟨hn, hns⟩ := Bool.and_eq_true_iff.1 h
    exact List.forall_mem_cons.2 ⟨isSolid_doc k n hn, isSolid_docs k ns hns⟩

theorem isFit_paramDoc (k : Int) (d : Decl Node) (h : allNamesDecl Text.isWord d = true) :
    (paramDoc k d).IsFit := by
  cases d with
  | mk span name ty =>
    obtain ⟨hname, hty⟩ := Bool.and_eq_true_iff.1 h
    have hparam : (concat [word name, (ty.doc k).parens]).IsSolid :=
      (isSolid_name hname).concat (isSolid_doc k ty hty).parens.toIsFit
    exact hparam.toIsFit

theorem isSolid_fieldDocs (k : Int) (ds : List (Decl Node)) (h : allNamesDecls Text.isWord ds = true) :
    ∀ d ∈ fieldDocs k ds, d.IsSolid := by
  cases ds with
  | nil => exact List.forall_mem_nil _
  | cons d ds =>
    cases d with
    | mk span name ty =>
      obtain ⟨hd, hds⟩ := Bool.and_eq_true_iff.1 h
      obtain ⟨hname, hty⟩ := Bool.and_eq_true_iff.1 hd
      exact List.forall_mem_cons.2 ⟨(isSolid_name hname).concat
        ⟨isFit_word (by decide), (isSolid_doc k ty hty).toIsFit⟩, isSolid_fieldDocs k ds hds⟩

theorem isSolid_caseDocs (k : Int) (cs : List (Case Node)) (h : allNamesCases Text.isWord cs = true) :
    ∀ d ∈ caseDocs k cs, d.IsSolid := by
  cases cs with
  | nil => exact List.forall_mem_nil _
  | cons c cs =>
    cases c with
    | mk span pattern body =>
      obtain ⟨hc, hcs⟩ := Bool.and_eq_true_iff.1 h
      obtain ⟨hpattern, hbody⟩ := Bool.and_eq_true_iff.1 hc
      exact List.forall_mem_cons.2 ⟨(isSolid_doc k pattern hpattern).concat
        ⟨isFit_word (by decide), (isSolid_body k (isSolid_docs k body hbody)).toIsFit⟩,
        isSolid_caseDocs k cs hcs⟩

end

end Node

/-! ## Text -/

open Doc

/-- Layout changes nothing but white space. Take a node whose names are words, and a layout. If the text
of the node on one line is shorter than the width in which nothing has to be broken, the inline text is
that text, without line breaks; and whatever the width and the indent of the layout are, the printed
text becomes the inline text when each line break is replaced by a space, together with the spaces that
follow it. -/
theorem print_unbreaks (layout : Layout) {n : Node} (hnames : n.allNames Text.isWord = true)
    (hsize : (n.doc layout.indent).oneLine.utf8ByteSize < Doc.unbroken) :
    unbreak (layout.print n).toList = (layout.inline n).toList ∧
      '\n' ∉ (layout.inline n).toList ∧ layout.inline n = (n.doc layout.indent).oneLine := by
  have hsolid := Node.isSolid_doc layout.indent n hnames
  have hinline : layout.inline n = (n.doc layout.indent).oneLine :=
    render_of_columns_le hsolid.enclosed (Nat.le_trans (columns_le _) (Nat.le_of_lt hsize))
  refine ⟨?_, ?_, hinline⟩
  · rw [hinline, oneLine, String.toList_ofList]
    exact unbreak_render (hsolid.tidy false) layout.width
  · rw [hinline, oneLine, String.toList_ofList]
    exact newline_notMem_chars (hsolid.tidy false)

/-- `{ a; b }` -/
def pairBlock : Node :=
  .block ⟨0, .builtin⟩ [.ident ⟨1, .builtin⟩ "a", .ident ⟨2, .builtin⟩ "b"]

/-- Four lines of a narrow layout become one. -/
theorem print_unbreaks_narrow :
    Layout.print ⟨2, 4⟩ pairBlock = "\x7b\n  a;\n  b\n\x7d" ∧
      unbreak (Layout.print ⟨2, 4⟩ pairBlock).toList = (Layout.inline ⟨2, 4⟩ pairBlock).toList :=
  ⟨by decide, (print_unbreaks ⟨2, 4⟩ (by decide) (by decide)).1⟩

end Residual
