/-
Reduction keeps the meaning of a program. Take a scope in which the residual code is run, and a scope
in which the source is; if what the source scope gives to a name is what the name `StandsForValue` in the
residual scope, then the value of a node in the source scope is refined by the value of what the node
reduces to in the residual scope. With nothing unknown in the bindings, what has a value is reduced
to that value.

So the evaluator agrees with the reference interpreter as long as it captures no name.
-/
import Residual.Proofs.Reduction
import Residual.Proofs.Refinement

namespace Residual

open Node Reference

/-! ## What a name denotes -/

/-- The scope of residual code inside a binding: there is one more name in it if the binding is a
binder of residual code that is kept. -/
inductive Extends (b : Binding) (outer : List Binding) (s : Scope) : Scope → Prop where
  | same : Extends b outer s s
  | bind (v : Value) (h : b.isBinder outer = true) : Extends b outer s ((b.residual, v) :: s)

theorem Extends.lookup_eq {b : Binding} {outer : List Binding} {s s' : Scope} {x : Name}
    (h : Extends b outer s s') (hx : b.isBinder outer = true → b.residual ≠ x) :
    s'.lookup x = s.lookup x := by
  cases h with
  | same => rfl
  | bind v hbinder =>
    have hne : (x == b.residual) = false := by simpa using (hx hbinder).symm
    rw [List.lookup_cons, hne]

/-- The scope gives a value to each parameter that is unknown. -/
inductive Aligned : List Binding → Scope → Prop where
  | nil {s : Scope} : Aligned [] s
  | unknown {b : Binding} {bs : List Binding} {s : Scope} (v : Value)
    (hbinder : b.isBinder bs = true) (h : Aligned bs s) : Aligned (b :: bs) ((b.residual, v) :: s)
  | known {b : Binding} {bs : List Binding} {s s' : Scope} (hknown : b.value.isPlaceholder = false)
    (h : Aligned bs s) (hext : Extends b bs s s') : Aligned (b :: bs) s'

/-- What a name stands for among the bindings has a value in the scope of residual code: that of a
parameter is its own, that of a known binding is the value of its code where the binding was made. -/
inductive StandsForValue : List Binding → Scope → Name → Value → Prop where
  | unknown {b : Binding} {bs : List Binding} {s : Scope} {v : Value}
    (hunknown : b.value.isPlaceholder = true) : StandsForValue (b :: bs) ((b.residual, v) :: s) b.name v
  | known {b : Binding} {bs : List Binding} {s s' : Scope} {k : Nat} {v : Value}
    (hknown : b.value.isPlaceholder = false) (h : Evaluates s b.value k v)
    (hext : Extends b bs s s') : StandsForValue (b :: bs) s' b.name v
  | skip {b : Binding} {bs : List Binding} {s s' : Scope} {x : Name} {v : Value} (hx : b.name ≠ x)
    (h : StandsForValue bs s x v) (hext : Extends b bs s s') : StandsForValue (b :: bs) s' x v

theorem find?_cons_of_ne {b : Binding} {bs : List Binding} {x : Name} (h : b.name ≠ x) :
    (b :: bs).find? (·.name == x) = bs.find? (·.name == x) :=
  List.find?_cons_of_neg (by simpa using h)

theorem find?_cons_self {b : Binding} {bs : List Binding} {x : Name} (h : b.name = x) :
    (b :: bs).find? (·.name == x) = some b :=
  List.find?_cons_of_pos (by simpa using h)

theorem StandsForValue.find?_ne_none {bs : List Binding} {s : Scope} {x : Name} {v : Value}
    (h : StandsForValue bs s x v) : bs.find? (·.name == x) ≠ none := by
  induction h with
  | unknown | known => rw [find?_cons_self rfl]; simp
  | skip hx _ _ ih => rwa [find?_cons_of_ne hx]

theorem isClear_iff {bs : List Binding} {x : Name} {names : List Name} :
    Binding.isClear bs x names = true ↔ ∀ y ∈ Binding.boundSince x bs, y ∉ names := by
  simp [Binding.isClear]

/-- Inside a binding of another name, the binding's own name is none of those that are put. -/
theorem isClear_cons_of_ne {b : Binding} {bs : List Binding} {x : Name} {names : List Name}
    (hx : b.name ≠ x) (h : Binding.isClear (b :: bs) x names = true) :
    (b.isBinder bs = true → b.residual ∉ names) ∧ Binding.isClear bs x names = true := by
  rw [isClear_iff] at h ⊢
  simp only [Binding.boundSince, if_neg hx, List.mem_append] at h
  refine ⟨fun hbinder => h b.residual (.inl ?_), fun y hy => h y (.inr hy)⟩
  rw [if_pos hbinder]
  exact List.mem_singleton_self _

theorem isClear_cons_self {b : Binding} {bs : List Binding} {names : List Name}
    (hknown : b.value.isPlaceholder = false) (h : Binding.isClear (b :: bs) b.name names = true)
    (hbinder : b.isBinder bs = true) : b.residual ∉ names := by
  rw [isClear_iff] at h
  refine h b.residual ?_
  rw [Binding.boundSince, if_pos rfl, hknown, hbinder]
  exact List.mem_singleton_self _

/-- A parameter that is put under the name of its binder is found there. -/
theorem StandsForValue.lookup_eq {bs : List Binding} {s : Scope} {x : Name} {v : Value} {b : Binding}
    (h : StandsForValue bs s x v) (hb : bs.find? (·.name == x) = some b)
    (hunknown : b.value.isPlaceholder = true)
    (hclear : Binding.isClear bs x [b.residual] = true) : s.lookup b.residual = some v := by
  induction h with
  | unknown =>
    rw [find?_cons_self rfl] at hb
    cases hb
    exact List.lookup_cons_self
  | known hknown =>
    rw [find?_cons_self rfl] at hb
    cases hb
    rw [hknown] at hunknown
    cases hunknown
  | skip hx _ hext ih =>
    rw [find?_cons_of_ne hx] at hb
    obtain ⟨hown, hrest⟩ := isClear_cons_of_ne hx hclear
    rw [hext.lookup_eq fun hbinder heq => hown hbinder (by simp [heq])]
    exact ih hb hrest

/-- Known code has its value wherever it is put. -/
theorem StandsForValue.evaluates {bs : List Binding} {s : Scope} {x : Name} {v : Value} {b : Binding}
    (h : StandsForValue bs s x v) (hb : bs.find? (·.name == x) = some b)
    (hknown : b.value.isPlaceholder = false)
    (hclear : Binding.isClear bs x b.value.free = true) :
    ∃ k v', Evaluates s b.value k v' ∧ Refines v v' := by
  induction h with
  | unknown hunknown =>
    rw [find?_cons_self rfl] at hb
    cases hb
    rw [hknown] at hunknown
    cases hunknown
  | known _ h hext =>
    rw [find?_cons_self rfl] at hb
    cases hb
    exact h.of_lookup_eq fun y hy => hext.lookup_eq fun hbinder heq =>
      isClear_cons_self hknown hclear hbinder (heq ▸ hy)
  | skip hx _ hext ih =>
    rw [find?_cons_of_ne hx] at hb
    obtain ⟨hown, hrest⟩ := isClear_cons_of_ne hx hclear
    obtain ⟨k, v', hev, hv⟩ := ih hb hrest
    obtain ⟨k', v'', hev', hv'⟩ := hev.of_lookup_eq fun y hy =>
      hext.lookup_eq fun hbinder heq => hown hbinder (heq ▸ hy)
    exact ⟨k', v'', hev', hv.trans hv'⟩

/-- A name of residual code that finds its parameter among the bindings denotes what it has. -/
theorem Aligned.standsForValue {bs : List Binding} {s : Scope} {x : Name} {b : Binding}
    (h : Aligned bs s) (hb : bs.find? (·.name == x) = some b) (hunknown : b.value.isPlaceholder = true)
    (hresidual : b.residual = x) (hclear : Binding.isClear bs x [x] = true) :
    ∃ v, s.lookup x = some v ∧ StandsForValue bs s x v := by
  induction h with
  | nil => cases hb
  | @unknown c bs s v hbinder h ih =>
    by_cases hx : c.name = x
    · rw [find?_cons_self hx] at hb
      cases hb
      refine ⟨v, ?_, hx ▸ .unknown hunknown⟩
      rw [hresidual]
      exact List.lookup_cons_self
    · rw [find?_cons_of_ne hx] at hb
      obtain ⟨hown, hrest⟩ := isClear_cons_of_ne hx hclear
      obtain ⟨w, hlookup, hstands⟩ := ih hb hrest
      have hext : Extends c bs s ((c.residual, v) :: s) := .bind v hbinder
      refine ⟨w, ?_, .skip hx hstands hext⟩
      rw [hext.lookup_eq fun hbinder heq => hown hbinder (by simp [heq])]
      exact hlookup
  | @known c bs s s' hknown h hext ih =>
    by_cases hx : c.name = x
    · rw [find?_cons_self hx] at hb
      cases hb
      rw [hknown] at hunknown
      cases hunknown
    · rw [find?_cons_of_ne hx] at hb
      obtain ⟨hown, hrest⟩ := isClear_cons_of_ne hx hclear
      obtain ⟨w, hlookup, hstands⟩ := ih hb hrest
      refine ⟨w, ?_, .skip hx hstands hext⟩
      rw [hext.lookup_eq fun hbinder heq => hown hbinder (by simp [heq])]
      exact hlookup

/-! ## Scopes of source and residual code -/

/-- What the source scope gives to some names, they denote in the residual scope. A name that is not
found at all may have any value, since its use has none. -/
def Means (names : List Name) (bs : List Binding) (source s : Scope) : Prop :=
  ∀ x ∈ names, ∀ v, source.lookup x = some v →
    (∃ v', StandsForValue bs s x v' ∧ Refines v v') ∨
      bs.find? (·.name == x) = none ∧ Builtin.ofName? x = none

theorem Means.mono {names names' : List Name} {bs : List Binding} {source s : Scope}
    (h : Means names bs source s) (hnames : ∀ x ∈ names', x ∈ names) : Means names' bs source s :=
  fun x hx => h x (hnames x hx)

/-- One more binding on both sides. -/
theorem Means.cons {names names' : List Name} {bs : List Binding} {source s s' : Scope} {b : Binding}
    {v v' : Value} (h : Means names bs source s) (hb : StandsForValue (b :: bs) s' b.name v')
    (hv : Refines v v') (hext : Extends b bs s s')
    (hnames : ∀ x ∈ names', x ≠ b.name → x ∈ names) :
    Means names' (b :: bs) ((b.name, v) :: source) s' := fun x hx u hu => by
  by_cases hxb : x = b.name
  · subst hxb
    rw [List.lookup_cons_self] at hu
    cases hu
    exact .inl ⟨v', hb, hv⟩
  · have hne : (x == b.name) = false := by simpa using hxb
    rw [List.lookup_cons, hne] at hu
    rw [find?_cons_of_ne (Ne.symm hxb)]
    obtain ⟨u', hstands, hrefines⟩ | hnone := h x (hnames x hx hxb) u hu
    · exact .inl ⟨u', .skip (Ne.symm hxb) hstands hext, hrefines⟩
    · exact .inr hnone

/-- A function that can be evaluated again means as source what it means as residual code. -/
theorem means_of_isReadable {bs : List Binding} {s : Scope} {t : Tag} {param : Decl Node}
    {body : List Node} (hs : Aligned bs s)
    (h : Binding.isReadable bs (.func t param body) = true) :
    Means (Node.func t param body).free bs s s := fun x hx v hv => by
  simp only [Binding.isReadable, isFunc, Bool.not_true, Bool.false_or, List.all_eq_true] at h
  have hfound := h x hx
  split at hfound
  · rename_i b hb
    simp only [Bool.and_eq_true, beq_iff_eq] at hfound
    obtain ⟨⟨hunknown, hresidual⟩, hclear⟩ := hfound
    obtain ⟨w, hlookup, hstands⟩ := hs.standsForValue hb hunknown hresidual hclear
    rw [hv] at hlookup
    cases hlookup
    exact .inl ⟨v, hstands, refines_refl v⟩
  · rename_i hb
    exact .inr ⟨hb, by simpa using hfound⟩

/-! ## Reduction keeps values -/

theorem getLast?_cons_of_getLast? {n v : Node} {ns : List Node} (h : ns.getLast? = some v) :
    (n :: ns).getLast? = some v := by
  rw [List.getLast?_cons, h]
  rfl

theorem eq_lit_of_number? {n : Node} {x : Float} (h : n.number? = some x) :
    ∃ t, n = .lit t (.number x) := by
  unfold number? at h
  split at h
  · cases h
    exact ⟨_, rfl⟩
  · cases h

theorem Reference.Evaluates.boundName?_ne {s : Scope} {n : Node} {k : Nat} {v : Value} {x : Name}
    (h : Evaluates s n k v) : n.boundName? ≠ some x := by
  cases h <;> simp [boundName?]

mutual

/-- The value of a node is refined by that of what it reduces to. -/
theorem Reduces.sound : ∀ {bs : List Binding} {n v : Node} {source s : Scope} {k : Nat} {u : Value},
    Reduces bs n v → CoreBindings bs → n.isCore = true → Aligned bs s → Means n.free bs source s →
      Evaluates source n k u → ∃ k' u', Evaluates s v k' u' ∧ Refines u u'
  | _, _, _, _, _, _, _, .lit, _, _, _, _, he => by
    cases he
    exact ⟨0, _, .lit, refines_refl _⟩
  | _, _, _, _, _, _, _, .builtin, _, _, _, _, he => by cases he
  | _, _, _, _, _, _, _, .assign _, _, _, _, _, he => by cases he
  | _, _, _, _, _, _, _, .builtinName hx hb, _, _, _, hmeans, he => by
    cases he with
    | ident hu =>
      obtain ⟨u', hstands, -⟩ | ⟨-, hnone⟩ := hmeans _ List.mem_cons_self _ hu
      · exact absurd hx hstands.find?_ne_none
      · rw [hb] at hnone
        cases hnone
  | _, _, _, _, _, _, _, .known hx hknown hclear, _, _, _, hmeans, he => by
    cases he with
    | ident hu =>
      obtain ⟨u', hstands, hrefines⟩ | ⟨hnone, -⟩ := hmeans _ List.mem_cons_self _ hu
      · rw [Binding.puts, hknown] at hclear
        obtain ⟨k', u'', hev, hrefines'⟩ := hstands.evaluates hx hknown hclear
        exact ⟨k', u'', hev, hrefines.trans hrefines'⟩
      · rw [hx] at hnone
        cases hnone
  | _, _, _, _, _, _, _, .unknown hx hunknown hclear, _, _, _, hmeans, he => by
    cases he with
    | ident hu =>
      obtain ⟨u', hstands, hrefines⟩ | ⟨hnone, -⟩ := hmeans _ List.mem_cons_self _ hu
      · rw [Binding.puts, hunknown] at hclear
        exact ⟨0, u', .ident (hstands.lookup_eq hx hunknown hclear), hrefines⟩
      · rw [hx] at hnone
        cases hnone
  | _, _, _, _, _, _, _, .func hname hunknown hbinder hbody, hbs, hn, hs, hmeans, he => by
    cases he
    refine ⟨0, _, .func, refines_closure fun a i w hw => ?_⟩
    have hinner := hmeans.cons (.unknown hunknown) (refines_refl a) (.bind a hbinder)
      fun x hx hne => mem_free_func.2 (.inr ⟨hx, hname ▸ hne⟩)
    rw [hname] at hinner
    exact (hbody.sound (hbs.cons (.inl hunknown)) hn (.unknown a hbinder hs) hinner hw).1
  | _, _, _, _, _, _, _, .unfold hf ha hname hread hbody hlast, hbs, hn, hs, hmeans, he => by
    cases he with
    | call hf' ha' hbody' =>
      obtain ⟨hcallee, harg⟩ := isCore_call.1 hn
      obtain ⟨_, f, hfev, hfrefines⟩ :=
        hf.sound hbs hcallee hs (hmeans.mono fun x hx => mem_free_call.2 (.inl hx)) hf'
      obtain ⟨_, a, haev, harefines⟩ :=
        ha.sound hbs harg hs (hmeans.mono fun x hx => mem_free_call.2 (.inr hx)) ha'
      have hacore := ha.isCore hbs harg
      have hknown := isPlaceholder_of_isCore hacore
      cases hfev with
      | func =>
        obtain ⟨i, r, hr, hrefines⟩ := hfrefines.evaluatesSeq harefines hbody'
        -- the residual function is now the source
        have hinner := (means_of_isReadable hs hread).cons (.known hknown haev .same)
          (refines_refl a) .same fun x hx hne => mem_free_func.2 (.inr ⟨hx, hname ▸ hne⟩)
        rw [hname] at hinner
        obtain ⟨-, w, k', r', hlast', hev, hrefines'⟩ := hbody.sound (hbs.cons (.inr hacore))
          (hf.isCore hbs hcallee) (.known hknown hs .same) hinner hr
        rw [hlast] at hlast'
        cases hlast'
        exact ⟨k', r', hev, hrefines.trans hrefines'⟩
  | _, _, _, _, _, _, _, .stay hf ha _, hbs, hn, hs, hmeans, he => by
    cases he with
    | call hf' ha' hbody' =>
      obtain ⟨hcallee, harg⟩ := isCore_call.1 hn
      obtain ⟨i, f, hfev, hfrefines⟩ :=
        hf.sound hbs hcallee hs (hmeans.mono fun x hx => mem_free_call.2 (.inl hx)) hf'
      obtain ⟨j, a, haev, harefines⟩ :=
        ha.sound hbs harg hs (hmeans.mono fun x hx => mem_free_call.2 (.inr hx)) ha'
      obtain ⟨s', x', body', rfl⟩ := hfrefines.closure_left
      obtain ⟨l, r, hr, hrefines⟩ := hfrefines.evaluatesSeq harefines hbody'
      exact ⟨i + j + l + 1, r, .call hfev haev hr, hrefines⟩
  | _, _, _, _, _, _, _, .fold ha hb hfold, hbs, hn, hs, hmeans, he => by
    cases he with
    | binOp ha' hb' h =>
      obtain ⟨hop, hlhs, hrhs⟩ := isCore_binOp.1 hn
      obtain ⟨_, x, haev, hx⟩ :=
        ha.sound hbs hlhs hs (hmeans.mono fun x hx => (mem_free_binOp hop).2 (.inl hx)) ha'
      obtain ⟨_, y, hbev, hy⟩ :=
        hb.sound hbs hrhs hs (hmeans.mono fun x hx => (mem_free_binOp hop).2 (.inr hx)) hb'
      cases refines_lit hx
      cases refines_lit hy
      obtain ⟨x', hx', hrest⟩ := Option.bind_eq_some_iff.1 hfold
      obtain ⟨y', hy', hxy⟩ := Option.bind_eq_some_iff.1 hrest
      obtain ⟨_, rfl⟩ := eq_lit_of_number? hx'
      obtain ⟨_, rfl⟩ := eq_lit_of_number? hy'
      cases haev
      cases hbev
      cases h.symm.trans hxy
      exact ⟨0, _, .lit, refines_refl _⟩
  | _, _, _, _, _, _, _, .keep ha hb _, hbs, hn, hs, hmeans, he => by
    cases he with
    | binOp ha' hb' h =>
      obtain ⟨hop, hlhs, hrhs⟩ := isCore_binOp.1 hn
      obtain ⟨i, x, haev, hx⟩ :=
        ha.sound hbs hlhs hs (hmeans.mono fun x hx => (mem_free_binOp hop).2 (.inl hx)) ha'
      obtain ⟨j, y, hbev, hy⟩ :=
        hb.sound hbs hrhs hs (hmeans.mono fun x hx => (mem_free_binOp hop).2 (.inr hx)) hb'
      cases refines_lit hx
      cases refines_lit hy
      exact ⟨i + j, _, .binOp haev hbev h, refines_refl _⟩

/-- The same for a sequence, and for its last node without the aliases before it. -/
theorem ReducesAll.sound : ∀ {bs : List Binding} {ns vs : List Node} {source s : Scope} {k : Nat}
    {u : Value}, ReducesAll bs ns vs → CoreBindings bs → allCore ns = true → Aligned bs s →
      Means (freeSeq ns) bs source s → EvaluatesSeq source ns k u →
        (∃ k' u', EvaluatesSeq s vs k' u' ∧ Refines u u') ∧
          ∃ v k' u', vs.getLast? = some v ∧ Evaluates s v k' u' ∧ Refines u u'
  | _, _, _, _, _, _, _, .nil, _, _, _, _, hseq => by cases hseq
  | _, _, _, _, _, _, _, .next h hv hrest, hbs, hns, hs, hmeans, hseq => by
    obtain ⟨hn, hns⟩ := allCore_cons.1 hns
    have hfirst := hmeans.mono fun x hx => mem_freeSeq_cons.2 (.inl hx)
    cases hseq with
    | last he =>
      obtain ⟨k', u', hev, hrefines⟩ := h.sound hbs hn hs hfirst he
      cases hrest
      exact ⟨⟨k', u', .last hev, hrefines⟩, _, k', u', rfl, hev, hrefines⟩
    | next he hrest' =>
      obtain ⟨i, w, hev, -⟩ := h.sound hbs hn hs hfirst he
      have hinner := hmeans.mono fun x hx => mem_freeSeq_cons.2 (.inr ⟨hx, he.boundName?_ne⟩)
      obtain ⟨⟨j, r, hr, hrefines⟩, v, k', r', hlast, hev', hrefines'⟩ :=
        hrest.sound hbs hns hs hinner hrest'
      exact ⟨⟨i + j, r, .next hev hr, hrefines⟩, v, k', r', getLast?_cons_of_getLast? hlast, hev',
        hrefines'⟩
    | bind =>
      cases h
      cases hv
  | _, _, _, _, _, _, _, .bind h hbinder hrest, hbs, hns, hs, hmeans, hseq => by
    obtain ⟨hn, hns⟩ := allCore_cons.1 hns
    have hvalue := (isCore_assign.1 hn).2
    have hcore := h.isCore hbs hvalue
    have hknown := isPlaceholder_of_isCore hcore
    cases hseq with
    | last he | next he _ => cases he
    | bind he hrest' =>
      obtain ⟨i, w, hev, hrefines⟩ :=
        h.sound hbs hvalue hs (hmeans.mono fun x hx => mem_freeSeq_cons.2 (.inl hx)) he
      -- with the alias kept its name is in scope, and for the last node alone it is not
      have hkept := hmeans.cons (.known hknown hev (.bind w hbinder)) hrefines (.bind w hbinder)
        fun _ => mem_freeSeq_assign
      have halone := hmeans.cons (.known hknown hev .same) hrefines .same fun _ => mem_freeSeq_assign
      obtain ⟨⟨j, r, hr, hrefines⟩, -⟩ := hrest.sound (hbs.cons (.inr hcore)) hns
        (.known hknown hs (.bind w hbinder)) hkept hrest'
      obtain ⟨-, v, k', r', hlast, hev', hrefines'⟩ := hrest.sound (hbs.cons (.inr hcore)) hns
        (.known hknown hs .same) halone hrest'
      exact ⟨⟨i + j, r, .bind hev hr, hrefines⟩, v, k', r', getLast?_cons_of_getLast? hlast, hev',
        hrefines'⟩
  | _, _, _, _, _, _, _, .leak hn h _ _, hbs, hns, hs, hmeans, hseq => by
    have hfirst := hmeans.mono fun x hx => mem_freeSeq_cons.2 (.inl hx)
    cases hseq with
    | last he | next he _ =>
      obtain ⟨_, _, hev, -⟩ := h.sound hbs (allCore_cons.1 hns).1 hs hfirst he
      cases hev
    | bind => cases hn

end

/-! ## With nothing unknown -/

/-- Code that is a value or has none, and aliases of such code. -/
inductive IsSettled : Node → Prop where
  | lit {t : Tag} {value : Literal} : IsSettled (.lit t value)
  | func {t : Tag} {param : Decl Node} {body : List Node} : IsSettled (.func t param body)
  | stuck {n : Node} (halias : n.isAlias = false) (h : ∀ s k u, ¬ Evaluates s n k u) : IsSettled n
  | assign {t : Tag} {target value : Node} {p : Bool} {link : Option DefId}
    (h : IsSettled value) : IsSettled (.assign t target value p link)

/-- All bindings are known, to settled code. -/
def SettledBindings (bs : List Binding) : Prop :=
  ∀ b ∈ bs, b.value.isCore = true ∧ IsSettled b.value

theorem SettledBindings.core {bs : List Binding} (h : SettledBindings bs) : CoreBindings bs :=
  fun b hb => .inr (h b hb).1

theorem SettledBindings.cons {bs : List Binding} {b : Binding} (hcore : b.value.isCore = true)
    (hb : IsSettled b.value) (h : SettledBindings bs) : SettledBindings (b :: bs) :=
  List.forall_mem_cons.2 ⟨⟨hcore, hb⟩, h⟩

theorem IsSettled.value {t : Tag} {target value : Node} {p : Bool} {link : Option DefId}
    (h : IsSettled (.assign t target value p link)) : IsSettled value := by
  cases h with
  | stuck halias => cases halias
  | assign h => exact h

/-- Settled code with the value of a number is a literal. -/
theorem IsSettled.number?_eq {n : Node} {s : Scope} {k : Nat} {x : Float} (h : IsSettled n)
    (he : Evaluates s n k (.lit (.number x))) : n.number? = some x := by
  cases h with
  | lit =>
    cases he
    rfl
  | func => cases he
  | stuck _ h => exact absurd he (h s k _)
  | assign => cases he

/-- Settled code that has a value is fully known. -/
theorem IsSettled.isStatic {n : Node} {s : Scope} {k : Nat} {u : Value} (h : IsSettled n)
    (he : Evaluates s n k u) : n.isStatic = true := by
  cases h with
  | lit | func => rfl
  | stuck _ h => exact absurd he (h s k u)
  | assign => cases he

/-- Settled code with the value of a function is a function. -/
theorem IsSettled.isFunc {n : Node} {s s' : Scope} {k : Nat} {x : Name} {body : List Node}
    (h : IsSettled n) (he : Evaluates s n k (.closure s' x body)) : n.isFunc = true := by
  cases h with
  | lit => cases he
  | func => rfl
  | stuck _ h => exact absurd he (h s k _)
  | assign => cases he

mutual

/-- With nothing unknown, a node is reduced to settled code. -/
theorem Reduces.isSettled : ∀ {bs : List Binding} {n v : Node}, Reduces bs n v →
    SettledBindings bs → n.isCore = true → IsSettled v
  | _, _, _, .lit, _, _ | _, _, _, .fold .., _, _ => .lit
  | _, _, _, .func .., _, _ => .func
  | _, _, _, .builtin, _, _ | _, _, _, .builtinName .., _, _ => .stuck rfl fun _ _ _ h => by cases h
  | _, _, _, .assign h, hbs, hn => .assign (h.isSettled hbs (isCore_assign.1 hn).2)
  | _, _, _, .known hx _ _, hbs, _ => (hbs _ (List.mem_of_find?_eq_some hx)).2
  | _, _, _, .unknown hx hunknown _, hbs, _ => by
    have hcore := (hbs _ (List.mem_of_find?_eq_some hx)).1
    rw [isPlaceholder_of_isCore hcore] at hunknown
    cases hunknown
  | _, _, _, .unfold hf ha _ _ hbody hlast, hbs, hn => by
    obtain ⟨hcallee, harg⟩ := isCore_call.1 hn
    have hinner := hbs.cons (ha.isCore hbs.core harg) (ha.isSettled hbs harg)
    exact hbody.isSettled hinner (hf.isCore hbs.core hcallee) _ (List.mem_of_getLast? hlast)
  | _, _, _, .stay hf ha hstay, hbs, hn => by
    obtain ⟨hcallee, harg⟩ := isCore_call.1 hn
    refine .stuck rfl fun s k u he => ?_
    cases he with
    | call hf' ha' _ =>
      obtain hfunc | hstatic := hstay
      · rw [(hf.isSettled hbs hcallee).isFunc hf'] at hfunc
        cases hfunc
      · rw [(ha.isSettled hbs harg).isStatic ha'] at hstatic
        cases hstatic
  | _, _, _, .keep ha hb hfold, hbs, hn => by
    obtain ⟨-, hlhs, hrhs⟩ := isCore_binOp.1 hn
    refine .stuck rfl fun s k u he => ?_
    cases he with
    | binOp ha' hb' h =>
      rw [(ha.isSettled hbs hlhs).number?_eq ha', (hb.isSettled hbs hrhs).number?_eq hb'] at hfold
      cases h.symm.trans hfold

theorem ReducesAll.isSettled : ∀ {bs : List Binding} {ns vs : List Node}, ReducesAll bs ns vs →
    SettledBindings bs → allCore ns = true → ∀ v ∈ vs, IsSettled v
  | _, _, _, .nil, _, _ => List.forall_mem_nil _
  | _, _, _, .next h _ hrest, hbs, hns => by
    obtain ⟨hn, hns⟩ := allCore_cons.1 hns
    exact List.forall_mem_cons.2 ⟨h.isSettled hbs hn, hrest.isSettled hbs hns⟩
  | _, _, _, .bind h _ hrest, hbs, hns => by
    obtain ⟨hn, hns⟩ := allCore_cons.1 hns
    have hvalue := (isCore_assign.1 hn).2
    have hinner := hbs.cons (h.isCore hbs.core hvalue) (h.isSettled hbs hvalue)
    exact List.forall_mem_cons.2 ⟨.assign (h.isSettled hbs hvalue), hrest.isSettled hinner hns⟩
  | _, _, _, .leak _ h _ hrest, hbs, hns => by
    obtain ⟨hn, hns⟩ := allCore_cons.1 hns
    have hvalue := (h.isSettled hbs hn).value
    have hinner := hbs.cons (isCore_assign.1 (h.isCore hbs.core hn)).2 hvalue
    exact List.forall_mem_cons.2 ⟨.assign hvalue, hrest.isSettled hinner hns⟩

end

/-! ## The evaluator and the interpreter -/

/-- If the reference interpreter gives a literal to a program, and a run of the evaluator on it returns
and captures no name, that is, is not given up when it is watched, then the run returns that
literal. -/
theorem eval_eq_interpret {depth fuel : Nat} {n v : Node} {value : Literal} {links : Links}
    {layout : Layout} {nodes : Counter} {t : Machine} (hn : n.isCore = true)
    (href : interpret fuel [] n = some (.lit value))
    (heval : (eval depth n).runOn ⟨.start .empty links layout, nodes⟩ = (.ok v, t))
    (hfree : ((watched depth n).runOn ⟨.start .empty links layout, nodes⟩).1 ≠ .error .exhausted) :
    ∃ tag, v = .lit tag value := by
  have hwatched := (approximates_watched depth n _ hfree).symm.trans heval
  have hcore : (Env.start .empty links layout).IsCore :=
    ⟨rfl, fun _ => rfl, List.forall_mem_nil _⟩
  have hreduces := watched_reduces hwatched hcore hn
  obtain ⟨k, hev⟩ := interpret_evaluates href
  have hmeans : Means n.free [] [] [] := fun _ _ _ h => by cases h
  obtain ⟨k', u, hev', hrefines⟩ := hreduces.sound hcore.bindings hn .nil hmeans hev
  cases refines_lit hrefines
  cases hreduces.isSettled (List.forall_mem_nil _) hn with
  | lit =>
    cases hev'
    exact ⟨_, rfl⟩
  | func => cases hev'
  | stuck _ h => exact absurd hev' (h _ _ _)
  | assign => cases hev'

/-- `(@x(Number) @x(Number) { y = x; last })(a)(b)` -/
def shadowing (last : Node) (a b : Literal) : Node :=
  .call ⟨0, .builtin⟩
    (.call ⟨1, .builtin⟩
      (.func ⟨2, .builtin⟩ ⟨.builtin, "x", .ident ⟨3, .builtin⟩ "Number"⟩
        [.func ⟨4, .builtin⟩ ⟨.builtin, "x", .ident ⟨5, .builtin⟩ "Number"⟩
          [.assign ⟨6, .builtin⟩ (.ident ⟨7, .builtin⟩ "y") (.ident ⟨8, .builtin⟩ "x") false none,
            last]])
      (.lit ⟨9, .builtin⟩ a))
    (.lit ⟨10, .builtin⟩ b)

/-- Two parameters of one name are kept apart: `(@x(Number) @x(Number) { y = x; y })(1)(2)` is `2`. -/
theorem eval_eq_interpret_shadowing :
    ∃ v t tag, (eval 9 (shadowing (.ident ⟨11, .builtin⟩ "y") (.number 1) (.number 2))).runOn
      ⟨.start .empty .empty default, ⟨20⟩⟩ = (.ok v, t) ∧ v = .lit tag (.number 2) := by
  have hok : ((eval 9 (shadowing (.ident ⟨11, .builtin⟩ "y") (.number 1) (.number 2))).runOn
    ⟨.start .empty .empty default, ⟨20⟩⟩).1.isOk = true := by decide +kernel
  have hfree : ((watched 9 (shadowing (.ident ⟨11, .builtin⟩ "y") (.number 1) (.number 2))).runOn
    ⟨.start .empty .empty default, ⟨20⟩⟩).1.isOk = true := by decide +kernel
  have href : interpret 9 [] (shadowing (.ident ⟨11, .builtin⟩ "y") (.number 1) (.number 2)) =
    some (.lit (.number 2)) := rfl
  obtain ⟨v, t, hrun⟩ := Pass.runOn_of_isOk hok
  obtain ⟨tag, hv⟩ := eval_eq_interpret (by decide) href hrun fun h => by
    rw [h] at hfree
    cases hfree
  exact ⟨v, t, tag, hrun, hv⟩

/-- A third parameter of the name captures the second one. `(@x @x { y = x; @x y })(a)(b)(c)` is `b`,
and evaluates to `c`, the literal with the identity `14`. -/
theorem eval_captures :
    let program (a b c : Literal) : Node := .call ⟨13, .builtin⟩
      (shadowing (.func ⟨11, .builtin⟩ ⟨.builtin, "x", .ident ⟨12, .builtin⟩ "Number"⟩
        [.ident ⟨15, .builtin⟩ "y"]) a b) (.lit ⟨14, .builtin⟩ c)
    let start : Machine := ⟨.start .empty .empty default, ⟨20⟩⟩
    (interpret 9 [] (program (.number 1) (.number 2) (.number 3)) = some (.lit (.number 2)) ∧
      ((eval 9 (program (.number 1) (.number 2) (.number 3))).runOn start).1.toOption.map
        Node.id = some 14) ∧
    (interpret 9 [] (program (.bool false) (.bool true) (.bool false)) = some (.lit (.bool true)) ∧
      ((eval 9 (program (.bool false) (.bool true) (.bool false))).runOn start).1.toOption.bind
        Node.bool? = some false) := by
  refine ⟨⟨rfl, ?_⟩, rfl, ?_⟩
  · decide +kernel
  · decide +kernel

end Residual
