/-
What is said of alike programs. Text shows no tags and no names of types, so where names are used as they
are, alike nodes look the same, and so do their types. Errors are alike if they have one cause and speak
of alike nodes; then they have the same message and the same labels, whatever their locations are. If
nothing differs between the programs, the nodes and the errors are the same.
-/
import Residual.Proofs.Likeness

namespace Residual

namespace Node

/-! ## Text without tags -/

section

variable (r : Relabeling) (k : Int)

theorem isAtomic_relabel (n : Node) : (n.relabel r).isAtomic = n.isAtomic := by cases n <;> rfl

theorem needsParens_relabel (least : Nat) (n : Node) :
    (n.relabel r).needsParens least = n.needsParens least := by cases n <;> rfl

mutual

theorem doc_relabel : ∀ n : Node, (n.relabel r).doc k = n.doc k
  | lit .. | enum .. | builtin .. | ident .. | unknown _ => rfl
  | list _ l | block _ l => by rw [relabel, doc, docs_relabelList l, doc]
  | record _ _ l range => by
    cases range <;> rw [relabel, doc, fieldDocs_relabelDecls l, doc]
  | fnType _ _ a b => by rw [relabel, doc, isAtomic_relabel, doc_relabel a, doc_relabel b, doc]
  | selfType _ a | arg _ _ a | field _ _ a => by rw [relabel, doc, doc_relabel a, doc]
  | assign _ a v _ _ => by rw [relabel, doc, doc_relabel a, doc_relabel v, doc]
  | func _ d l => by rw [relabel, doc, paramDoc_relabelDecl d, docs_relabelList l, doc]
  | call _ a b => by rw [relabel, doc, isAtomic_relabel, doc_relabel a, doc_relabel b, doc]
  | binOp _ _ a b => by
    rw [relabel, doc, needsParens_relabel, needsParens_relabel, isAtomic_relabel, doc_relabel a,
      doc_relabel b, doc]
  | matchOn _ a l => by rw [relabel, doc, doc_relabel a, caseDocs_relabelCases l, doc]
  | whileDo _ a l => by rw [relabel, doc, doc_relabel a, docs_relabelList l, doc]
  | ifElse _ a l m => by
    rw [relabel, doc, doc_relabel a, docs_relabelList l, docs_relabelList m, doc]
  | inst _ a l => by rw [relabel, doc, isAtomic_relabel, doc_relabel a, docs_relabelList l, doc]

theorem docs_relabelList (ns : List Node) : docs k (relabelList r ns) = docs k ns := by
  cases ns with
  | nil => rfl
  | cons n ns => rw [relabelList, docs, doc_relabel n, docs_relabelList ns, docs]

theorem paramDoc_relabelDecl : ∀ d : Decl Node, paramDoc k (relabelDecl r d) = paramDoc k d
  | ⟨_, _, ty⟩ => by rw [relabelDecl, paramDoc, doc_relabel ty, paramDoc]

theorem fieldDoc_relabelDecl : ∀ d : Decl Node, fieldDoc k (relabelDecl r d) = fieldDoc k d
  | ⟨_, _, ty⟩ => by rw [relabelDecl, fieldDoc, doc_relabel ty, fieldDoc]

theorem fieldDocs_relabelDecls (ds : List (Decl Node)) :
    fieldDocs k (relabelDecls r ds) = fieldDocs k ds := by
  cases ds with
  | nil => rfl
  | cons d ds =>
    rw [relabelDecls, fieldDocs, fieldDoc_relabelDecl d, fieldDocs_relabelDecls ds, fieldDocs]

theorem caseDoc_relabelCase : ∀ c : Case Node, caseDoc k (relabelCase r c) = caseDoc k c
  | ⟨_, pattern, body⟩ => by
    rw [relabelCase, caseDoc, doc_relabel pattern, docs_relabelList body, caseDoc]

theorem caseDocs_relabelCases (cs : List (Case Node)) :
    caseDocs k (relabelCases r cs) = caseDocs k cs := by
  cases cs with
  | nil => rfl
  | cons c cs =>
    rw [relabelCases, caseDocs, caseDoc_relabelCase c, caseDocs_relabelCases cs, caseDocs]

end

end

/-! ## Where names are used as they are -/

section

variable {ℓ : Likeness}

/-- Parts up to a size are the same under other tags. -/
def RelabeledUpto (ℓ : Likeness) (k : Nat) : Prop :=
  ∀ {n n' : Node}, sizeOf n < k → n.Alike ℓ n' → n' = n.relabel ℓ.tags

theorem RelabeledUpto.mono {k k' : Nat} (h : RelabeledUpto ℓ k') (hle : k ≤ k') :
    RelabeledUpto ℓ k := fun hlt => h (Nat.lt_of_lt_of_le hlt hle)

theorem eq_relabelList {ns ns' : List Node} (hns : List.Forall₂ (Alike ℓ) ns ns')
    (ih : RelabeledUpto ℓ (sizeOf ns)) : ns' = relabelList ℓ.tags ns := by
  induction hns with
  | nil => rfl
  | cons hn _ ihs => rw [relabelList, ih (by simp +arith) hn, ihs (ih.mono (by simp))]

theorem eq_relabelDecls {ds ds' : List (Decl Node)}
    (hds : List.Forall₂ (Decl.Alike ℓ (Alike ℓ)) ds ds') (ih : RelabeledUpto ℓ (sizeOf ds)) :
    ds' = relabelDecls ℓ.tags ds := by
  induction hds with
  | nil => rfl
  | cons hd _ ihs =>
    cases hd with
    | mk span x hty =>
      rw [relabelDecls, relabelDecl, ih (by simp +arith) hty, ihs (ih.mono (by simp))]
      rfl

theorem eq_relabelCases {cs cs' : List (Case Node)}
    (hcs : List.Forall₂ (Case.Alike ℓ (Alike ℓ)) cs cs') (ih : RelabeledUpto ℓ (sizeOf cs)) :
    cs' = relabelCases ℓ.tags cs := by
  induction hcs with
  | nil => rfl
  | cons hc _ ihs =>
    cases hc with
    | mk span hp hbody =>
      rw [relabelCases, relabelCase, ih (by simp +arith) hp,
        eq_relabelList hbody (ih.mono (by simp +arith)), ihs (ih.mono (by simp))]
      rfl

theorem eq_relabelItems {ns ns' : List Node}
    (hns : List.Forall₂ (ItemAlike ℓ (Alike ℓ)) ns ns') (ih : RelabeledUpto ℓ (sizeOf ns)) :
    ns' = relabelList ℓ.tags ns := by
  induction hns with
  | nil => rfl
  | cons hn _ ihs =>
    rw [relabelList, ← ihs (ih.mono (by simp))]
    cases hn with
    | bind t target transparent link hv => rw [relabel, ih (by simp +arith) hv]
    | member t x => rfl
    | other hn => rw [ih (by simp +arith) hn]

/-- Where names are used as they are, nodes that are alike are the same under other tags. -/
theorem Alike.eq_relabel (hplain : ℓ.Plain) {n n' : Node} (hn : n.Alike ℓ n') :
    n' = n.relabel ℓ.tags := by
  have ih : RelabeledUpto ℓ (sizeOf n) := fun hlt hm => hm.eq_relabel hplain
  cases hn with
  | lit | enum | builtin | unknown => rfl
  | ident t hx => rw [relabel, hplain _ _ hx]
  | list t hl | block t hl => rw [relabel, ← eq_relabelList hl (ih.mono (by simp))]
  | record t hid range hl => rw [relabel, ← eq_relabelDecls hl (ih.mono (by simp +arith))]
  | fnType t hid ha hb => rw [relabel, ← ih (by simp +arith) ha, ← ih (by simp +arith) hb]
  | call t ha hb | binOp t hop ha hb =>
    rw [relabel, ← ih (by simp +arith) ha, ← ih (by simp +arith) hb]
  | selfType t ha | arg t x ha | field t x ha | dot t rhs ha =>
    rw [relabel, ← ih (by simp +arith) ha]
  | assign t target transparent link hx hv => rw [relabel, ← ih (by simp +arith) hv]
  | func t hx hparam hl =>
    cases hparam with
    | mk span x hty =>
      rw [relabel, relabelDecl, ← ih (by simp +arith) hty, ← eq_relabelList hl (ih.mono (by simp))]
      rfl
  | matchOn t ha hl =>
    rw [relabel, ← ih (by simp +arith) ha, ← eq_relabelCases hl (ih.mono (by simp))]
  | whileDo t ha hl =>
    rw [relabel, ← ih (by simp +arith) ha, ← eq_relabelList hl (ih.mono (by simp))]
  | ifElse t ha hl hm =>
    rw [relabel, ← ih (by simp +arith) ha, ← eq_relabelList hl (ih.mono (by simp +arith)),
      ← eq_relabelList hm (ih.mono (by simp))]
  | inst t ha hl =>
    rw [relabel, ← ih (by simp +arith) ha, ← eq_relabelItems hl (ih.mono (by simp))]
termination_by sizeOf n

theorem Alike.eq_of_exact {n n' : Node} (h : n.Alike ℓ n') (hℓ : ℓ.Exact) : n' = n := by
  rw [h.eq_relabel hℓ.plain, hℓ.tags_eq, relabel_same]

theorem TypeAlike.eq_of_exact {n n' : Node} (h : n.TypeAlike ℓ n') (hℓ : ℓ.Exact) : n' = n := by
  induction h with
  | source h => exact h.eq_of_exact hℓ
  | inferred t hid _ _ ihdom ihcod =>
    obtain rfl := hℓ.inferred_eq _ _ hid
    rw [ihdom, ihcod, hℓ.tags_eq]
    rfl

theorem TypeAlike.doc_eq {n n' : Node} (h : n.TypeAlike ℓ n') (hplain : ℓ.Plain) (k : Int) :
    n'.doc k = n.doc k := by
  induction h with
  | source h => rw [h.eq_relabel hplain, doc_relabel]
  | @inferred dom dom' cod cod' t id id' hid hdom hcod ihdom ihcod =>
    have hatomic : dom'.isAtomic = dom.isAtomic := by
      cases hdom with
      | source h => rw [h.eq_relabel hplain, isAtomic_relabel]
      | inferred => rfl
    rw [doc, doc, hatomic, ihdom, ihcod]

/-- An error may speak of one node in place of the other. They look the same if names are used as they
are, and are the same if nothing differs. -/
structure Looks (ℓ : Likeness) (n n' : Node) : Prop where
  doc_eq : ℓ.Plain → ∀ k, n'.doc k = n.doc k
  eq_of_exact : ℓ.Exact → n' = n

theorem looks_relabel (n : Node) : Looks ℓ n (n.relabel ℓ.tags) :=
  ⟨fun _ k => doc_relabel _ k n, fun hℓ => by rw [hℓ.tags_eq, relabel_same]⟩

theorem TypeAlike.looks {n n' : Node} (h : n.TypeAlike ℓ n') : Looks ℓ n n' :=
  ⟨h.doc_eq, h.eq_of_exact⟩

theorem Alike.looks {n n' : Node} (h : n.Alike ℓ n') : Looks ℓ n n' := TypeAlike.looks (.source h)

theorem ItemAlike.looks {n n' : Node} (h : ItemAlike ℓ (Alike ℓ) n n') : Looks ℓ n n' := by
  cases h with
  | bind t target transparent link hv =>
    refine ⟨fun hplain k => ?_, fun hℓ => ?_⟩
    · rw [doc, doc, doc_relabel, hv.looks.doc_eq hplain]
    · rw [hv.eq_of_exact hℓ, hℓ.tags_eq, relabel_same]
      rfl
  | member t x => exact looks_relabel (ident t x)
  | other h => exact h.looks

end

end Node

/-! ## Errors -/

open Node

/-- Errors of one cause, at locations that correspond, that speak of alike nodes. -/
inductive TypeError.Alike (ℓ : Likeness) : TypeError → TypeError → Prop where
  | unknownName {x x' : Name} (h : ℓ.used x x') (s : Span) :
    Alike ℓ (.unknownName x s) (.unknownName x' (ℓ.span s))
  | alreadyDefined (x : Name) (s p : Span) :
    Alike ℓ (.alreadyDefined x s p) (.alreadyDefined x (ℓ.span s) (ℓ.span p))
  | invalidTarget {n n' : Node} (h : Looks ℓ n n') (s : Span) :
    Alike ℓ (.invalidTarget n s) (.invalidTarget n' (ℓ.span s))
  | notCallable {n n' : Node} (h : Looks ℓ n n') (s : Span) :
    Alike ℓ (.notCallable n s) (.notCallable n' (ℓ.span s))
  | argumentMismatch {n n' m m' : Node} (h : Looks ℓ n n') (hm : Looks ℓ m m')
    (call arg definition : Span) : Alike ℓ (.argumentMismatch n m call arg definition)
      (.argumentMismatch n' m' (ℓ.span call) (ℓ.span arg) (ℓ.span definition))
  | operandNotNumber (op : Operator) {n n' : Node} (h : Looks ℓ n n') (s : Span) :
    Alike ℓ (.operandNotNumber op n s) (.operandNotNumber op n' (ℓ.span s))
  | typeMismatch {n n' m m' : Node} (h : Looks ℓ n n') (hm : Looks ℓ m m') (s : Span) :
    Alike ℓ (.typeMismatch n m s) (.typeMismatch n' m' (ℓ.span s))
  | branchMismatch {n n' m m' : Node} (h : Looks ℓ n n') (hm : Looks ℓ m m') (s p : Span) :
    Alike ℓ (.branchMismatch n m s p) (.branchMismatch n' m' (ℓ.span s) (ℓ.span p))
  | conditionNotBool {n n' : Node} (h : Looks ℓ n n') (s : Span) :
    Alike ℓ (.conditionNotBool n s) (.conditionNotBool n' (ℓ.span s))
  | cannotInfer (s : Span) : Alike ℓ (.cannotInfer s) (.cannotInfer (ℓ.span s))
  | emptySequence (s : Span) : Alike ℓ (.emptySequence s) (.emptySequence (ℓ.span s))
  | notAType {n n' : Node} (h : Looks ℓ n n') (s : Span) :
    Alike ℓ (.notAType n s) (.notAType n' (ℓ.span s))
  | notInstantiable {n n' : Node} (h : Looks ℓ n n') (s : Span) :
    Alike ℓ (.notInstantiable n s) (.notInstantiable n' (ℓ.span s))
  | noSuchField {n n' m m' : Node} (h : Looks ℓ n n') (hm : Looks ℓ m m') (s : Span) :
    Alike ℓ (.noSuchField n m s) (.noSuchField n' m' (ℓ.span s))
  | missingField (x : Name) {n n' : Node} (h : Looks ℓ n n') (s : Span) :
    Alike ℓ (.missingField x n s) (.missingField x n' (ℓ.span s))
  | notAMember {n n' m m' : Node} (h : Looks ℓ n n') (hm : Looks ℓ m m') (s : Span) :
    Alike ℓ (.notAMember n m s) (.notAMember n' m' (ℓ.span s))
  | outOfRange (value : Float) (range : Range) (s : Span) :
    Alike ℓ (.outOfRange value range s) (.outOfRange value range (ℓ.span s))
  | noMatchingCase {n n' : Node} (h : Looks ℓ n n') (s : Span) :
    Alike ℓ (.noMatchingCase n s) (.noMatchingCase n' (ℓ.span s))

theorem Node.Looks.inline_eq {ℓ : Likeness} {n n' : Node} (h : Looks ℓ n n') (hplain : ℓ.Plain)
    (layout : Layout) : layout.inline n' = layout.inline n := by
  rw [Layout.inline, h.doc_eq hplain, Layout.inline]

/-- Errors that are alike have the same message, if names are used as they are. -/
theorem TypeError.Alike.message_eq {ℓ : Likeness} {e e' : TypeError} (h : e.Alike ℓ e')
    (hplain : ℓ.Plain) (layout : Layout) : e'.message layout = e.message layout := by
  cases h with
  | unknownName h =>
    obtain rfl := hplain _ _ h
    rfl
  | alreadyDefined | cannotInfer | emptySequence | outOfRange => rfl
  | argumentMismatch h hm | typeMismatch h hm | branchMismatch h hm | noSuchField h hm
  | notAMember h hm =>
    unfold message
    dsimp only
    rw [h.inline_eq hplain, hm.inline_eq hplain]
  | invalidTarget h | notCallable h | conditionNotBool h | notAType h | notInstantiable h
  | noMatchingCase h | operandNotNumber _ h | missingField _ h =>
    unfold message
    dsimp only
    rw [h.inline_eq hplain]

theorem TypeError.Alike.labels_eq {ℓ : Likeness} {e e' : TypeError} (h : e.Alike ℓ e') :
    e'.labels.map (·.text) = e.labels.map (·.text) := by cases h <;> rfl

/-- Where nothing differs, alike errors are the same. -/
theorem TypeError.Alike.eq_of_exact {ℓ : Likeness} {e e' : TypeError} (h : e.Alike ℓ e')
    (hℓ : ℓ.Exact) : e' = e := by
  cases h with
  | unknownName h =>
    obtain rfl := hℓ.plain _ _ h
    rw [hℓ.span_eq]
  | alreadyDefined => rw [hℓ.span_eq, hℓ.span_eq]
  | cannotInfer | emptySequence | outOfRange => rw [hℓ.span_eq]
  | argumentMismatch h hm =>
    rw [h.eq_of_exact hℓ, hm.eq_of_exact hℓ, hℓ.span_eq, hℓ.span_eq, hℓ.span_eq]
  | branchMismatch h hm => rw [h.eq_of_exact hℓ, hm.eq_of_exact hℓ, hℓ.span_eq, hℓ.span_eq]
  | typeMismatch h hm | noSuchField h hm | notAMember h hm =>
    rw [h.eq_of_exact hℓ, hm.eq_of_exact hℓ, hℓ.span_eq]
  | invalidTarget h | notCallable h | conditionNotBool h | notAType h | notInstantiable h
  | noMatchingCase h | operandNotNumber _ h | missingField _ h => rw [h.eq_of_exact hℓ, hℓ.span_eq]

/-- Faults of the same kind, that say the same of alike nodes. -/
inductive Fault.Alike (ℓ : Likeness) : Fault → Fault → Prop where
  | void : Alike ℓ .void .void
  | error {e e' : TypeError} (h : e.Alike ℓ e') : Alike ℓ (.error e) (.error e')
  | contradiction {func func' ty ty' : Node} (hfunc : Looks ℓ func func') (hty : Looks ℓ ty ty') :
    Alike ℓ (.contradiction func ty) (.contradiction func' ty')
  | exhausted : Alike ℓ .exhausted .exhausted

theorem Fault.Alike.eq_of_exact {ℓ : Likeness} {f f' : Fault} (h : f.Alike ℓ f') (hℓ : ℓ.Exact) :
    f' = f := by
  cases h with
  | void | exhausted => rfl
  | error h => rw [h.eq_of_exact hℓ]
  | contradiction hfunc hty => rw [hfunc.eq_of_exact hℓ, hty.eq_of_exact hℓ]

end Residual
