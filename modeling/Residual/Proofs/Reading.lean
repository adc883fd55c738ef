/-
Names, calls, operators and function types can be read back from their text. A reader takes the text
token by token and keeps what waits for more of it. At an operator it first closes the operators before
it that bind as tightly or tighter, so operators lean to the left; at an arrow it closes operators but
no arrows, so arrows lean to the right. In the middle of a text the reader has parts of a formula, of
which some may become operands of what comes next; what it has read is known by what the parts become
when they are closed.
-/
import Mathlib.Data.List.Chain
import Mathlib.Data.Option.NAry
import Residual.Proofs.Printing

namespace Residual

/-! ## Tokens -/

/-- A character that is a token of its own. -/
inductive Mark
  | gap
  | opening
  | closing
  | dot
  deriving Repr, DecidableEq

namespace Mark

def char : Mark → Char
  | gap => ' '
  | opening => '('
  | closing => ')'
  | dot => '.'

def ofChar? : Char → Option Mark
  | ' ' => some gap
  | '(' => some opening
  | ')' => some closing
  | '.' => some dot
  | _ => none

theorem ofChar?_char (m : Mark) : ofChar? m.char = some m := by cases m <;> rfl

end Mark

/-- Whether there is at least one letter, and no mark among them, as in a name of letters and digits. -/
def Word.isPlain (letters : List Char) : Bool :=
  !letters.isEmpty && letters.all fun c => (Mark.ofChar? c).isNone

structure Word where
  letters : List Char
  plain : Word.isPlain letters = true
  deriving Repr, DecidableEq

def Word.cons {c : Char} (hc : Mark.ofChar? c = none) (w : Word) : Word where
  letters := c :: w.letters
  plain := by
    have h := w.plain
    rw [isPlain, Bool.and_eq_true] at h
    simp [isPlain, hc, h.2]

inductive Token
  | mark (m : Mark)
  | word (w : Word)
  deriving Repr, DecidableEq

namespace Token

def chars : Token → List Char
  | mark m => [m.char]
  | word w => w.letters

def isWord : Token → Bool
  | mark _ => false
  | word _ => true

/-- A character in front of tokens. If it is no mark, it belongs to the word that follows at once. -/
def cons (c : Char) (ts : List Token) : List Token :=
  match hc : Mark.ofChar? c with
  | some m => mark m :: ts
  | none =>
    match ts with
    | word w :: ts => word (w.cons hc) :: ts
    | ts => word ⟨[c], by simp [Word.isPlain, hc]⟩ :: ts

def scan (cs : List Char) : List Token := cs.foldr cons []

end Token

/-! ## Formulas -/

def Word.arrow : Word := ⟨"->".toList, by decide⟩

namespace Operator

/-- An operator that is written between spaces. -/
abbrev Spaced := {op : Operator // op ≠ .dot}

namespace Spaced

theorem precedence_pos (op : Spaced) : 0 < op.1.precedence := by
  cases op.1 <;> decide

theorem precedence_lt (op : Spaced) : op.1.precedence < 5 := by
  obtain ⟨op, h⟩ := op
  revert h
  cases op <;> decide

def word (op : Spaced) : Word where
  letters := op.1.symbol.toList
  plain := by
    obtain ⟨op, h⟩ := op
    revert h
    cases op <;> decide

def ofWord? (w : Word) : Option Spaced := do
  let op ← ofSymbol? (String.ofList w.letters)
  if h : op ≠ .dot then some ⟨op, h⟩ else none

theorem ofWord?_word (op : Spaced) : ofWord? op.word = some op := by
  obtain ⟨op, h⟩ := op
  have hsymbol : ofSymbol? op.symbol = some op := by cases op <;> decide
  rw [ofWord?, word, String.ofList_toList, hsymbol]
  exact dif_pos h

theorem word_ne_arrow (op : Spaced) : op.word ≠ .arrow := by
  intro h
  have hletters : op.1.symbol.toList = "->".toList := congrArg Word.letters h
  revert hletters
  cases op.1 <;> decide

end Spaced

end Operator

/-- A tree of names, calls, operators and function types. -/
inductive Formula
  | name (w : Word)
  | member (f : Formula) (w : Word)
  | call (f a : Formula)
  | binary (op : Operator.Spaced) (lhs rhs : Formula)
  | arrow (dom cod : Formula)
  deriving Repr, DecidableEq

namespace Formula

/-- How tightly a formula holds together. -/
def level : Formula → Nat
  | name _ | member .. | call .. => 5
  | binary op _ _ => op.1.precedence
  | arrow .. => 0

def parens (ts : List Token) : List Token := .mark .opening :: ts ++ [.mark .closing]

def parensIf (condition : Bool) (ts : List Token) : List Token := if condition then parens ts else ts

/-- The tokens of a formula, with parentheses around what holds together less tightly than its place
asks for. -/
def tokens : Formula → List Token
  | name w => [.word w]
  | member f w => parensIf (f.level < 5) f.tokens ++ [.mark .dot, .word w]
  | call f a => parensIf (f.level < 5) f.tokens ++ parens a.tokens
  | binary op lhs rhs =>
    parensIf (lhs.level < op.1.precedence) lhs.tokens ++
      [.mark .gap, .word op.word, .mark .gap] ++
      parensIf (rhs.level < op.1.precedence + 1) rhs.tokens
  | arrow dom cod =>
    parensIf (dom.level < 5) dom.tokens ++ [.mark .gap, .word .arrow, .mark .gap] ++ cod.tokens

/-! ## Reading -/

/-- What waits for a formula. -/
inductive Frame
  | paren
  | argument (f : Formula)
  | member (f : Formula)
  | operand (op : Operator.Spaced) (lhs : Formula)
  | codomain (dom : Formula)
  deriving Repr, DecidableEq

/-- The frames that are open, the innermost first, and the formula that has been read for it, unless it
is yet to come. -/
structure Stack where
  frames : List Frame
  last : Option Formula
  deriving Repr, DecidableEq

/-- Give a formula to the operators and arrows that wait for it and bind at least as tightly as
`least`. -/
def close (least : Nat) : List Frame → Formula → List Frame × Formula
  | .operand op lhs :: fs, f =>
    if least ≤ op.1.precedence then close least fs (binary op lhs f) else (.operand op lhs :: fs, f)
  | .codomain dom :: fs, f =>
    if least = 0 then close least fs (arrow dom f) else (.codomain dom :: fs, f)
  | fs, f => (fs, f)

def endParens : List Frame × Formula → Option Stack
  | (.paren :: fs, f) => some ⟨fs, some f⟩
  | (.argument g :: fs, f) => some ⟨fs, some (call g f)⟩
  | _ => none

/-- Read one token. A word is a name where a formula is to come, and an operator or an arrow behind
one: an operator first closes those of its own precedence, an arrow closes no arrows. -/
def step : Stack → Token → Option Stack
  | s, .mark .gap => some s
  | ⟨fs, none⟩, .mark .opening => some ⟨.paren :: fs, none⟩
  | ⟨fs, some f⟩, .mark .opening => some ⟨.argument f :: fs, none⟩
  | ⟨fs, some f⟩, .mark .closing => endParens (close 0 fs f)
  | ⟨fs, some f⟩, .mark .dot => some ⟨.member f :: fs, none⟩
  | ⟨.member f :: fs, none⟩, .word w => some ⟨fs, some (member f w)⟩
  | ⟨fs, none⟩, .word w => some ⟨fs, some (name w)⟩
  | ⟨fs, some f⟩, .word w =>
    if w = .arrow then
      let (fs, dom) := close 1 fs f
      some ⟨.codomain dom :: fs, none⟩
    else do
      let op ← Operator.Spaced.ofWord? w
      let (fs, lhs) := close op.1.precedence fs f
      some ⟨.operand op lhs :: fs, none⟩
  | ⟨_, none⟩, _ => none

def finish : Stack → Option Formula
  | ⟨fs, some f⟩ =>
    match close 0 fs f with
    | ([], f) => some f
    | _ => none
  | ⟨_, none⟩ => none

def run (ts : List Token) (s : Stack) : Option Stack := ts.foldlM step s

/-- The formula of a text. -/
def read? (s : String) : Option Formula := (run (Token.scan s.toList) ⟨[], none⟩).bind finish

/-! ## What the reader has read -/

/-- The least level of formulas that a frame takes without parentheses. After a dot comes a word. -/
def Frame.least : Frame → Nat
  | paren | argument _ | codomain _ => 0
  | operand op _ => op.1.precedence + 1
  | member _ => 6

def Accepts (least : Nat) (fs : List Frame) : Prop := ∀ frame ∈ fs.head?, frame.least ≤ least

theorem Accepts.mono {least least' : Nat} {fs : List Frame} (h : Accepts least fs)
    (hle : least ≤ least') : Accepts least' fs :=
  fun frame hframe => Nat.le_trans (h frame hframe) hle

theorem accepts_cons {least : Nat} {frame : Frame} {fs : List Frame} (h : frame.least ≤ least) :
    Accepts least (frame :: fs) := by
  intro frame' hframe
  cases hframe
  exact h

theorem close_five (fs : List Frame) (f : Formula) : close 5 fs f = (fs, f) := by
  cases fs with
  | nil => rfl
  | cons frame fs =>
    cases frame with
    | operand op lhs => exact if_neg (Nat.not_le_of_lt op.precedence_lt)
    | _ => rfl

/-- What comes next does not close a frame that takes formulas of its level. -/
theorem close_of_accepts {least p : Nat} {fs : List Frame} (h : Accepts least fs) (hle : least ≤ p)
    (hpos : 0 < p) (f : Formula) : close p fs f = (fs, f) := by
  cases fs with
  | nil => rfl
  | cons frame fs =>
    cases frame with
    | operand op lhs =>
      have hop : op.1.precedence < least := h _ rfl
      exact if_neg (Nat.not_le_of_lt (Nat.lt_of_lt_of_le hop hle))
    | codomain dom => exact if_neg (Nat.ne_of_gt hpos)
    | _ => rfl

/-- From tokens the reader gets what stands for a formula wherever formulas of level `least` are taken:
closed as far as that level or further, it is the formula. -/
def Reads (ts : List Token) (f : Formula) (least : Nat) : Prop :=
  ∀ fs, Accepts least fs → ∃ fs' g, run ts ⟨fs, none⟩ = some ⟨fs', some g⟩ ∧
    ∀ p ≤ least, close p fs' g = close p fs f

section

variable {ts us : List Token} {f g : Formula} {least : Nat} {fs : List Frame}

theorem run_append {s s' : Stack} {r : Option Stack} (hts : run ts s = some s') (hus : run us s' = r) :
    run (ts ++ us) s = r := by
  rw [run, List.foldlM_append, ← run, hts]
  exact hus

theorem Reads.mono {least' : Nat} (h : Reads ts f least') (hle : least ≤ least') :
    Reads ts f least := by
  intro fs hfs
  obtain ⟨fs', g, hrun, hclose⟩ := h fs (hfs.mono hle)
  exact ⟨fs', g, hrun, fun p hp => hclose p (Nat.le_trans hp hle)⟩

theorem reads_of_run (h : ∀ fs, Accepts least fs → run ts ⟨fs, none⟩ = some ⟨fs, some f⟩) :
    Reads ts f least :=
  fun fs hfs => ⟨fs, f, h fs hfs, fun _ _ => rfl⟩

/-- A formula that holds together most tightly is all that the reader has got. -/
theorem Reads.run_eq (h : Reads ts f 5) (hfs : Accepts 5 fs) :
    run ts ⟨fs, none⟩ = some ⟨fs, some f⟩ := by
  obtain ⟨fs', g, hrun, hclose⟩ := h fs hfs
  have heq := hclose 5 (Nat.le_refl 5)
  rw [close_five, close_five] at heq
  cases heq
  exact hrun

/-- Parentheses, or those of a call, are closed by what they enclose. -/
theorem Reads.closing (h : Reads ts f 0) (frame : Frame) (fs : List Frame) (hframe : frame.least = 0)
    (hclose : close 0 (frame :: fs) f = (frame :: fs, f)) :
    run (ts ++ [.mark .closing]) ⟨frame :: fs, none⟩ = endParens (frame :: fs, f) := by
  obtain ⟨fs', g, hrun, hg⟩ := h (frame :: fs) (accepts_cons (Nat.le_of_eq hframe))
  rw [← hclose, ← hg 0 (Nat.le_refl 0)]
  exact run_append hrun (bind_pure (endParens (close 0 fs' g)))

theorem Reads.parens (h : Reads ts f 0) : Reads (parens ts) f least :=
  reads_of_run fun fs _ => h.closing .paren fs rfl rfl

theorem reads_name (w : Word) : Reads [.word w] (name w) 5 := by
  refine reads_of_run fun fs hfs => ?_
  cases fs with
  | nil => rfl
  | cons frame fs =>
    cases frame with
    | member f => exact absurd (hfs _ rfl) (Nat.not_succ_le_self 5)
    | _ => rfl

theorem Reads.member (h : Reads ts f 5) (w : Word) :
    Reads (ts ++ [.mark .dot, .word w]) (member f w) 5 :=
  reads_of_run fun _ hfs => run_append (h.run_eq hfs) rfl

theorem Reads.call (hf : Reads ts f 5) (ha : Reads us g 0) :
    Reads (ts ++ Formula.parens us) (call f g) 5 :=
  reads_of_run fun fs hfs => run_append (hf.run_eq hfs) (ha.closing (.argument f) fs rfl rfl)

theorem Reads.binary {op : Operator.Spaced} (hlhs : Reads ts f op.1.precedence)
    (hrhs : Reads us g (op.1.precedence + 1)) :
    Reads (ts ++ [.mark .gap, .word op.word, .mark .gap] ++ us) (binary op f g) op.1.precedence := by
  intro fs hfs
  obtain ⟨fs₁, f₁, hrun₁, hclose₁⟩ := hlhs fs hfs
  -- the operator closes all of its left side, and nothing before it
  have hleft : close op.1.precedence fs₁ f₁ = (fs, f) := by
    rw [hclose₁ _ (Nat.le_refl _), close_of_accepts hfs (Nat.le_refl _) op.precedence_pos]
  have hop : run [.mark .gap, .word op.word, .mark .gap] ⟨fs₁, some f₁⟩ =
      some ⟨.operand op f :: fs, none⟩ := by
    simp [run, step, op.word_ne_arrow, op.ofWord?_word, hleft]
  obtain ⟨fs₂, f₂, hrun₂, hclose₂⟩ := hrhs (.operand op f :: fs) (accepts_cons (Nat.le_refl _))
  refine ⟨fs₂, f₂, run_append (run_append hrun₁ hop) hrun₂, fun p hp => ?_⟩
  -- whatever closes as far as the operator gives it its right side
  rw [hclose₂ p (Nat.le_succ_of_le hp), close, if_pos hp]

theorem Reads.arrow (hdom : Reads ts f 5) (hcod : Reads us g 0) :
    Reads (ts ++ [.mark .gap, .word .arrow, .mark .gap] ++ us) (arrow f g) 0 := by
  intro fs hfs
  have hrun₁ := hdom.run_eq (hfs.mono (Nat.zero_le 5))
  have harrow : run [.mark .gap, .word .arrow, .mark .gap] ⟨fs, some f⟩ =
      some ⟨.codomain f :: fs, none⟩ := by
    simp [run, step, close_of_accepts hfs (Nat.zero_le 1)]
  obtain ⟨fs₂, g₂, hrun₂, hclose₂⟩ := hcod (.codomain f :: fs) (accepts_cons (Nat.le_refl 0))
  refine ⟨fs₂, g₂, run_append (run_append hrun₁ harrow) hrun₂, fun p hp => ?_⟩
  rw [hclose₂ p hp, close, if_pos (Nat.le_zero.1 hp)]

theorem Reads.parensIf (h : Reads ts f f.level) :
    Reads (parensIf (f.level < least) ts) f least := by
  unfold Formula.parensIf
  split
  · exact (h.mono (Nat.zero_le _)).parens
  · rename_i hlevel
    exact h.mono (by simpa using hlevel)

end

/-- From the tokens of a formula the reader gets the formula, whatever it has read before. -/
theorem reads_tokens (f : Formula) : Reads f.tokens f f.level := by
  induction f with
  | name w => exact reads_name w
  | member f w ih => exact ih.parensIf.member w
  | call f a ihf iha => exact ihf.parensIf.call (iha.mono (Nat.zero_le _))
  | binary op lhs rhs ihlhs ihrhs => exact ihlhs.parensIf.binary ihrhs.parensIf
  | arrow dom cod ihdom ihcod => exact ihdom.parensIf.arrow (ihcod.mono (Nat.zero_le _))

theorem finish_tokens (f : Formula) : (run f.tokens ⟨[], none⟩).bind finish = some f := by
  obtain ⟨fs, g, hrun, hclose⟩ :=
    (reads_tokens f).mono (Nat.zero_le _) [] (fun _ h => by cases h)
  rw [hrun, Option.bind_some, finish, hclose 0 (Nat.le_refl 0)]
  rfl

end Formula

/-! ## Scanning -/

namespace Token

/-- Words stand apart. -/
def IsSpaced (ts : List Token) : Prop := ts.IsChain fun a b => (a.isWord && b.isWord) = false

theorem cons_char (m : Mark) (ts : List Token) : cons m.char ts = mark m :: ts := by
  unfold cons
  split
  · rename_i h
    rw [Mark.ofChar?_char] at h
    cases h
    rfl
  · rename_i h
    rw [Mark.ofChar?_char] at h
    cases h

theorem cons_word {c : Char} (hc : Mark.ofChar? c = none) (w : Word) (ts : List Token) :
    cons c (word w :: ts) = word (w.cons hc) :: ts := by
  unfold cons
  split
  · rename_i h
    rw [hc] at h
    cases h
  · rfl

theorem cons_letter {c : Char} (hc : Mark.ofChar? c = none) {ts : List Token}
    (hts : ∀ t ∈ ts.head?, t.isWord = false) :
    cons c ts = word ⟨[c], by simp [Word.isPlain, hc]⟩ :: ts := by
  unfold cons
  split
  · rename_i h
    rw [hc] at h
    cases h
  · split
    · cases hts _ rfl
    · rfl

theorem foldr_cons_letters {ts : List Token} (hts : ∀ t ∈ ts.head?, t.isWord = false)
    (letters : List Char) (h : Word.isPlain letters = true) :
    letters.foldr cons ts = word ⟨letters, h⟩ :: ts := by
  induction letters with
  | nil => cases h
  | cons c letters ih =>
    obtain ⟨hc, hletters⟩ : Mark.ofChar? c = none ∧ letters.all (Mark.ofChar? · |>.isNone) = true := by
      simpa [Word.isPlain] using h
    cases letters with
    | nil => exact cons_letter hc hts
    | cons d letters =>
      rw [List.foldr_cons, ih hletters, cons_word hc]
      rfl

theorem scan_flatMap_chars {ts : List Token} (h : IsSpaced ts) : scan (ts.flatMap chars) = ts := by
  induction ts with
  | nil => rfl
  | cons t ts ih =>
    obtain ⟨hhead, htail⟩ := List.isChain_cons.1 h
    rw [List.flatMap_cons, scan, List.foldr_append, ← scan, ih htail]
    cases t with
    | mark m => exact cons_char m ts
    | word w => exact foldr_cons_letters hhead w.letters w.plain

theorem isSpaced_nil : IsSpaced [] := .nil

theorem isSpaced_word (w : Word) : IsSpaced [word w] := .singleton _

theorem IsSpaced.append_mark {ts us : List Token} (hts : IsSpaced ts) (m : Mark)
    (hus : IsSpaced us) : IsSpaced (ts ++ mark m :: us) := by
  refine List.isChain_append.2 ⟨hts, List.isChain_cons.2 ⟨fun _ _ => rfl, hus⟩, fun t _ t' ht' => ?_⟩
  cases ht'
  exact Bool.and_false _

theorem IsSpaced.append_word {ts us : List Token} (hts : IsSpaced ts) (w : Word)
    (hus : IsSpaced us) : IsSpaced (ts ++ [mark .gap, word w, mark .gap] ++ us) := by
  rw [List.append_assoc]
  exact hts.append_mark .gap ((isSpaced_word w).append_mark .gap hus)

end Token

namespace Formula

open Token (IsSpaced isSpaced_nil isSpaced_word)

theorem isSpaced_parensIf {ts : List Token} (h : IsSpaced ts) (condition : Bool) :
    IsSpaced (parensIf condition ts) := by
  unfold parensIf
  split
  · exact isSpaced_nil.append_mark .opening (h.append_mark .closing isSpaced_nil)
  · exact h

theorem isSpaced_tokens (f : Formula) : IsSpaced f.tokens := by
  induction f with
  | name w => exact isSpaced_word w
  | member f w ih => exact (isSpaced_parensIf ih _).append_mark .dot (isSpaced_word w)
  | call f a ihf iha =>
    exact (isSpaced_parensIf ihf _).append_mark .opening (iha.append_mark .closing isSpaced_nil)
  | binary op lhs rhs ihlhs ihrhs =>
    exact (isSpaced_parensIf ihlhs _).append_word op.word (isSpaced_parensIf ihrhs _)
  | arrow dom cod ihdom ihcod => exact (isSpaced_parensIf ihdom _).append_word .arrow ihcod

def text (f : Formula) : String := String.ofList (f.tokens.flatMap Token.chars)

theorem read?_text (f : Formula) : read? f.text = some f := by
  rw [read?, text, String.toList_ofList, Token.scan_flatMap_chars (isSpaced_tokens f)]
  exact finish_tokens f

end Formula

/-! ## Printing -/

namespace Doc

/-- The text of a document is the same in every layout, and is that of tokens. -/
structure Spells (d : Doc) (ts : List Token) : Prop where
  isRigid : d.isRigid = true
  chars_eq : d.chars = ts.flatMap Token.chars

variable {d e : Doc} {ts us : List Token}

theorem spells_word {s : String} (h : s.toList = ts.flatMap Token.chars) : Spells (word s) ts := by
  unfold word
  split
  · rename_i hs
    subst hs
    exact ⟨rfl, h⟩
  · exact ⟨rfl, h⟩

theorem Spells.cat (hd : d.Spells ts) (he : e.Spells us) : (d ++ e).Spells (ts ++ us) where
  isRigid := by rw [isRigid_cat, hd.isRigid, he.isRigid, Bool.and_self]
  chars_eq := by rw [chars_cat, hd.chars_eq, he.chars_eq, List.flatMap_append]

theorem Spells.parens (h : d.Spells ts) : d.parens.Spells (Formula.parens ts) := by
  have hopen : Spells (word "(") [.mark .opening] := spells_word (by decide)
  have hclose : Spells (word ")") [.mark .closing] := spells_word (by decide)
  exact (hopen.cat h).cat hclose

theorem Spells.parensIf (h : d.Spells ts) (condition : Bool) :
    (d.parensIf condition).Spells (Formula.parensIf condition ts) := by
  cases condition with
  | false => exact h
  | true => exact h.parens

theorem Spells.render (h : d.Spells ts) (width : Nat) :
    d.render width = String.ofList (ts.flatMap Token.chars) := by
  rw [render_of_isRigid h.isRigid, oneLine, h.chars_eq]

end Doc

namespace Node

/-- The word that a node is. -/
def word? : Node → Option Word
  | ident _ name => if h : Word.isPlain name.toList = true then some ⟨name.toList, h⟩ else none
  | _ => none

/-- The formula that a node is, if it is built of names, calls, operators and function types and what
comes after a dot is a name. Tags and the identities of types have no part in it. -/
def formula? : Node → Option Formula
  | ident t name => (word? (ident t name)).map .name
  | call _ f a => Option.map₂ .call f.formula? a.formula?
  | binOp _ op lhs rhs =>
    if h : op ≠ .dot then Option.map₂ (.binary ⟨op, h⟩) lhs.formula? rhs.formula?
    else Option.map₂ .member lhs.formula? rhs.word?
  | fnType _ _ dom cod => Option.map₂ .arrow dom.formula? cod.formula?
  | _ => none

theorem eq_ident_of_word? {n : Node} {w : Word} (h : n.word? = some w) :
    ∃ t, n = ident t (String.ofList w.letters) := by
  unfold word? at h
  split at h
  · split at h
    · cases h
      exact ⟨_, by rw [String.ofList_toList]⟩
    · cases h
  · cases h

theorem needsParens_five (n : Node) : n.needsParens 5 = !n.isAtomic := by
  cases n with
  | binOp t op lhs rhs => cases op <;> rfl
  | _ => rfl

/-- The printer shows a formula, and puts a node between parentheses by the level of its formula. -/
structure Shows (n : Node) (f : Formula) : Prop where
  spells (k : Int) : (n.doc k).Spells f.tokens
  needsParens_eq {least : Nat} (hpos : 0 < least) (hle : least ≤ 5) :
    n.needsParens least = decide (f.level < least)

theorem Shows.operand {n : Node} {f : Formula} (h : n.Shows f) (k : Int) {least : Nat}
    (hpos : 0 < least) (hle : least ≤ 5) :
    ((n.doc k).parensIf (n.needsParens least)).Spells
      (Formula.parensIf (f.level < least) f.tokens) := by
  rw [h.needsParens_eq hpos hle]
  exact (h.spells k).parensIf _

theorem Shows.atom {n : Node} {f : Formula} (h : n.Shows f) (k : Int) :
    ((n.doc k).parensIf (!n.isAtomic)).Spells (Formula.parensIf (f.level < 5) f.tokens) := by
  rw [← needsParens_five]
  exact h.operand k (by decide) (Nat.le_refl 5)

theorem shows_ident (t : Tag) (w : Word) : Shows (ident t (String.ofList w.letters)) (.name w) where
  spells k := Doc.spells_word (by simp [Formula.tokens, Token.chars])
  needsParens_eq _ hle := (decide_eq_false (Nat.not_lt_of_le hle)).symm

variable {n m : Node} {f g : Formula}

theorem Shows.member (hn : n.Shows f) (t t' : Tag) (w : Word) :
    Shows (binOp t .dot n (ident t' (String.ofList w.letters))) (.member f w) where
  spells k := by
    have hdot : (Doc.word ".").Spells [.mark .dot] := Doc.spells_word (by decide)
    have hspells := ((hn.operand k (by decide) (Nat.le_refl 5)).cat hdot).cat
      ((shows_ident t' w).spells k)
    rwa [List.append_assoc] at hspells
  needsParens_eq _ hle := rfl

theorem Shows.call (hn : n.Shows f) (hm : m.Shows g) (t : Tag) :
    Shows (call t n m) (.call f g) where
  spells k := (hn.atom k).cat (hm.spells k).parens
  needsParens_eq _ hle := (decide_eq_false (Nat.not_lt_of_le hle)).symm

theorem Shows.binary (hn : n.Shows f) (hm : m.Shows g) (t : Tag) (op : Operator.Spaced) :
    Shows (binOp t op.1 n m) (.binary op f g) where
  spells k := by
    have hop : (Doc.word (" " ++ op.1.symbol ++ " ")).Spells
        [.mark .gap, .word op.word, .mark .gap] :=
      Doc.spells_word (by simp [Token.chars, Mark.char, Operator.Spaced.word])
    rw [doc]
    simp only [op.2, if_false]
    exact ((hn.operand k op.precedence_pos (Nat.le_of_lt op.precedence_lt)).cat hop).cat
      (hm.operand k (Nat.succ_pos _) op.precedence_lt)
  needsParens_eq _ _ := rfl

theorem Shows.arrow (hn : n.Shows f) (hm : m.Shows g) (t : Tag) (id : TypeId) :
    Shows (fnType t id n m) (.arrow f g) where
  spells k := by
    have harrow : (Doc.word " -> ").Spells [.mark .gap, .word .arrow, .mark .gap] :=
      Doc.spells_word (by decide)
    exact ((hn.atom k).cat harrow).cat (hm.spells k)
  needsParens_eq hpos _ := (decide_eq_true hpos).symm

theorem shows_of_formula? (h : n.formula? = some f) : n.Shows f := by
  fun_induction formula? n generalizing f with
  | case1 t name =>
    obtain ⟨w, hw, rfl⟩ := Option.map_eq_some_iff.1 h
    obtain ⟨t', hname⟩ := eq_ident_of_word? hw
    rw [hname]
    exact shows_ident t' w
  | case2 t n m ihn ihm =>
    obtain ⟨f, g, hf, hg, rfl⟩ := Option.map₂_eq_some_iff.1 h
    exact (ihn hf).call (ihm hg) t
  | case3 t op n m hop ihn ihm =>
    obtain ⟨f, g, hf, hg, rfl⟩ := Option.map₂_eq_some_iff.1 h
    exact (ihn hf).binary (ihm hg) t ⟨op, hop⟩
  | case4 t op n m hop ihn =>
    obtain ⟨f, w, hf, hw, rfl⟩ := Option.map₂_eq_some_iff.1 h
    obtain ⟨t', rfl⟩ := eq_ident_of_word? hw
    cases of_not_not hop
    exact (ihn hf).member t t' w
  | case5 t id n m ihn ihm =>
    obtain ⟨f, g, hf, hg, rfl⟩ := Option.map₂_eq_some_iff.1 h
    exact (ihn hf).arrow (ihm hg) t id
  | case6 => cases h

theorem Shows.print (h : n.Shows f) (layout : Layout) : layout.print n = f.text :=
  (h.spells layout.indent).render layout.width

theorem Shows.inline (h : n.Shows f) (layout : Layout) : layout.inline n = f.text :=
  (h.spells layout.indent).render Doc.unbroken

end Node

/-! ## Text -/

/-- The text of formulas is unambiguous. Take a node that is a formula. It is printed alike in every
width and with every indent, which is also its inline text; from this text the reader gets the formula
back, with operators that lean to the left and arrows that lean to the right; and no other formula has
the same inline text, whatever the layout. -/
theorem inline_unambiguous {n : Node} {f : Formula} (hn : n.formula? = some f) :
    (∀ layout layout' : Layout, layout.print n = layout'.inline n) ∧
      (∀ layout : Layout, Formula.read? (layout.inline n) = some f) ∧
      ∀ m : Node, m.formula?.isSome = true →
        ∀ layout layout' : Layout, layout.inline m = layout'.inline n → m.formula? = n.formula? := by
  have hshows := Node.shows_of_formula? hn
  refine ⟨fun layout layout' => ?_, fun layout => ?_, fun m hm layout layout' heq => ?_⟩
  · rw [hshows.print, hshows.inline]
  · rw [hshows.inline, Formula.read?_text]
  · obtain ⟨g, hg⟩ := Option.isSome_iff_exists.1 hm
    rw [(Node.shows_of_formula? hg).inline, hshows.inline] at heq
    rw [hg, hn, ← Formula.read?_text, heq, Formula.read?_text]

/-- `(a -> b) -> f(x).y - (c - d)` -/
def curriedNode : Node :=
  .fnType ⟨0, .bare 0 1⟩ "fn#0"
    (.fnType ⟨1, .bare 0 1⟩ "fn#1" (.ident ⟨2, .bare 0 1⟩ "a") (.ident ⟨3, .bare 0 1⟩ "b"))
    (.binOp ⟨4, .bare 0 1⟩ .sub
      (.binOp ⟨5, .bare 0 1⟩ .dot
        (.call ⟨6, .bare 0 1⟩ (.ident ⟨7, .bare 0 1⟩ "f") (.ident ⟨8, .bare 0 1⟩ "x"))
        (.ident ⟨9, .bare 0 1⟩ "y"))
      (.binOp ⟨10, .bare 0 1⟩ .sub (.ident ⟨11, .bare 0 1⟩ "c") (.ident ⟨12, .bare 0 1⟩ "d")))

theorem inline_unambiguous_curried :
    Layout.standard.inline curriedNode = "(a -> b) -> f(x).y - (c - d)" ∧
      Formula.read? (Layout.standard.inline curriedNode) = curriedNode.formula? :=
  ⟨by decide, (inline_unambiguous rfl).2.1 Layout.standard⟩

end Residual
