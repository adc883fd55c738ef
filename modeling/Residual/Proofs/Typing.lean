/-
Typing and checking of first-order programs. A well-typed program passes the checker with its type,
and a first-order program that passes is well typed. Both are one induction over the program, for the
two readings of what is known of its types.

The checker unfolds the calls of known functions, so this rests on evaluation: what a call becomes is
residual code of the type of the call, in which the checker finds no call any more.
-/
import Residual.Proofs.Checking

namespace Residual

namespace FirstOrder

open Pass

variable {τ : Type} {ty : Builtin → τ} {reads : τ → Builtin → Prop} {F : Fault → Prop}
variable {store : Definitions}

/-- A shape that is a reading of what is known of it. -/
inductive Shape.ReadsAs (reads : τ → Builtin → Prop) : Shape τ → Shape Builtin → Prop where
  | data {a : τ} {b : Builtin} (h : reads a b) : ReadsAs reads (.data a) (.data b)
  | fn {σ : Shape τ} {σ' : Shape Builtin} (h : ReadsAs reads σ σ') : ReadsAs reads (.fn σ) (.fn σ')

theorem Shape.ReadsAs.eq : ∀ {σ σ' : Shape Builtin}, Shape.ReadsAs Eq σ σ' → σ = σ'
  | _, _, .data h => h ▸ rfl
  | _, _, .fn h => h.eq ▸ rfl

/-- Types for the names in scope that are readings of what is known of them. -/
structure Assigns (reads : τ → Builtin → Prop) (Γ : List (Name × τ)) (Γ' : List (Name × Builtin)) :
    Prop where
  vars : ∀ x a, Γ.lookup x = some a → ∃ b, Γ'.lookup x = some b ∧ reads a b
  others : ∀ x, Γ.lookup x = none → Γ'.lookup x = none

theorem assigns_nil (reads : τ → Builtin → Prop) : Assigns reads [] [] :=
  ⟨fun _ _ h => (nomatch h), fun _ _ => rfl⟩

theorem assigns_eq (Γ : List (Name × Builtin)) : Assigns Eq Γ Γ :=
  ⟨fun _ a h => ⟨a, h, rfl⟩, fun _ h => h⟩

theorem Assigns.cons {Γ : List (Name × τ)} {Γ' : List (Name × Builtin)} (h : Assigns reads Γ Γ')
    (x : Name) {a : τ} {b : Builtin} (hab : reads a b) :
    Assigns reads ((x, a) :: Γ) ((x, b) :: Γ') where
  vars y c hy := by
    by_cases hname : y = x
    · subst hname
      rw [List.lookup_cons_self] at hy
      cases hy
      exact ⟨b, List.lookup_cons_self, hab⟩
    · rw [lookup_cons_of_ne _ hname] at hy ⊢
      exact h.vars y c hy
  others y hy := by
    by_cases hname : y = x
    · subst hname
      rw [List.lookup_cons_self] at hy
      cases hy
    · rw [lookup_cons_of_ne _ hname] at hy ⊢
      exact h.others y hy

mutual

/-- The checker gives code a type that is a reading of what is known of it, and that the code has. -/
theorem Code.checked (hR : Reading ty reads F) :
    ∀ {g : Stage} {Γ : List (Name × τ)} {e : Node} {a : τ}, Code ty store g Γ e a →
    ∀ {p : NodeId → Prop} {Γ' : List (Name × Builtin)} {env : Env},
    (g = .residual ∨ g = .source p ∧ ResidualChecks store) → Assigns reads Γ Γ' →
    Checks store p Γ' env →
    Returns env (fun d => check d e) F (Judged reads a (Typed store g Γ' e))
  | _, _, _, _, .lit tag l, _, _, _, _, _, _ =>
    Returns.succ ((returns_builtin l.isData_builtin).mono fun _ ht => ⟨_, ht, hR.self _, .lit tag l⟩)
  | _, _, _, _, .var tag h, _, _, _, _, hΓ, henv => by
    obtain ⟨b, hb, hreads⟩ := hΓ.vars _ _ h
    exact Returns.succ ((returns_check_var henv hb tag).mono
      fun _ ht => ⟨b, ht, hreads, .var tag hb⟩)
  | _, _, _, _, .const tag hx hp hv, _, _, _, hg, _, henv => by
    obtain hg | ⟨hg, -⟩ := hg <;> cases hg
    refine Returns.succ ((returns_check_const henv hx hp hv.isFunc (fun henv' =>
      hv.checked hR (.inl rfl) (assigns_nil reads) henv') tag).mono fun t ht => ?_)
    obtain ⟨b, hb, hreads, hv'⟩ := ht
    exact ⟨b, hb, hreads, .const tag hx hp hv'⟩
  | _, _, _, _, .list tag h, _, _, _, hg, hΓ, henv =>
    Returns.succ (returns_checkList hR tag fun e he => (h e he).checked hR hg hΓ henv)
  | _, _, _, _, .binOp tag hop hl hr, _, _, _, hg, hΓ, henv =>
    Returns.succ (returns_checkBinOp hR tag hop (hl.checked hR hg hΓ henv)
      (hr.checked hR hg hΓ henv))
  | _, _, _, _, .ifElse tag hc ht he, _, _, _, hg, hΓ, henv =>
    Returns.succ (returns_checkIf hR tag (hc.checked hR hg hΓ henv) (ht.checked hR hg hΓ henv)
      (he.checked hR hg hΓ henv) ht.boundName? he.boundName?)
  | _, _, _, _, .whileDo tag hc he, _, _, _, hg, hΓ, henv =>
    Returns.succ (returns_checkWhile hR tag (hc.checked hR hg hΓ henv) (he.checked hR hg hΓ henv)
      he.boundName?)
  | _, _, _, _, .matchOn tag hs hp hone hb hw, _, _, _, hg, hΓ, henv => by
    refine Returns.succ (returns_checkMatch hR tag (hs.checked hR hg hΓ henv)
      (fun c hc hwild => (hp c hc hwild).checked hR hg hΓ henv) (fun c hc => ?_) hw)
    obtain ⟨e, he⟩ := List.length_eq_one_iff.1 (hone c hc)
    exact ⟨e, he, (hb c hc e (by simp [he])).boundName?,
      (hb c hc e (by simp [he])).checked hR hg hΓ henv⟩
  | _, _, _, _, .block tag h, _, _, _, hg, hΓ, henv => by
    obtain hg | ⟨hg, hres⟩ := hg <;> cases hg
    refine Returns.succ (((h.checked hR hres hΓ henv).returns h.ne_nil tag.span).mono fun t ht => ?_)
    obtain ⟨σ, hσ, hreads, hbody⟩ := ht
    cases hreads with
    | data hreads => exact ⟨_, hσ, hreads, .block tag hbody⟩
  | _, _, _, _, .call tag ftag harg hf hp hty hx hfree hbody, _, _, _, hg, hΓ, henv => by
    obtain hg | ⟨hg, hres⟩ := hg <;> cases hg
    refine Returns.succ (returns_check_call hR hres henv tag ftag hf hp hty (hΓ.others _ hx) hfree
      (returns_check_callee henv hf hp hty hfree (fun henv' => ?_) ftag)
      (harg.checked hR (.inr ⟨rfl, hres⟩) hΓ henv))
    refine ((hbody.checked hR hres ((assigns_nil reads).cons _ (hR.self _)) henv').returns
      hbody.ne_nil _).mono fun t ht => ?_
    obtain ⟨σ, -, hreads, hbody'⟩ := ht
    cases hreads with
    | data hreads => exact ⟨_, hreads, hbody'⟩

theorem Program.checked (hR : Reading ty reads F) :
    ∀ {p : NodeId → Prop} {Γ : List (Name × τ)} {n : Node} {σ : Shape τ},
    Program ty store p Γ n σ → ∀ {Γ' : List (Name × Builtin)} {env : Env}, ResidualChecks store →
    Assigns reads Γ Γ' → Checks store p Γ' env → Returns env (fun d => check d n) F fun t =>
      ∃ σ', σ'.Denotes t ∧ Shape.ReadsAs reads σ σ' ∧ Program (fun b => b) store p Γ' n σ'
  | _, _, _, _, .code h, _, _, hres, hΓ, henv =>
    (h.checked hR (.inr ⟨rfl, hres⟩) hΓ henv).mono fun _ ⟨b, hb, hreads, h⟩ =>
      ⟨.data b, hb, .data hreads, .code h⟩
  | _, _, _, _, .func tag hp hty hx hfree hbody, _, _, hres, hΓ, henv => by
    refine Returns.succ ((returns_checkFunc henv hp hty hfree fun henv' => (hbody.checked hR hres
      (hΓ.cons _ (hR.self _)) henv').returns hbody.ne_nil _).mono fun t ht => ?_)
    obtain ⟨u, id, dom, cod, rfl, -, σ, hσ, hreads, hbody'⟩ := ht
    exact ⟨.fn σ, ⟨u, id, dom, cod, rfl, hσ⟩, .fn hreads,
      .func tag hp hty (hΓ.others _ hx) hfree hbody'⟩

theorem Body.checked (hR : Reading ty reads F) :
    ∀ {p : NodeId → Prop} {Γ : List (Name × τ)} {items : List Node} {σ : Shape τ},
    Body ty store p Γ items σ → ∀ {Γ' : List (Name × Builtin)} {env : Env}, ResidualChecks store →
    Assigns reads Γ Γ' → Checks store p Γ' env → Check.ChecksSeq check env items F fun t =>
      ∃ σ', σ'.Denotes t ∧ Shape.ReadsAs reads σ σ' ∧ Body (fun b => b) store p Γ' items σ'
  | _, _, _, _, .last h, _, _, hres, hΓ, henv =>
    (Check.checksSeq_single (h.checked hR hres hΓ henv) h.boundName?).mono fun _ ⟨σ, hσ, hreads, h⟩ =>
      ⟨σ, hσ, hreads, .last h⟩
  | _, _, _, _, .expr h hrest, _, _, hres, hΓ, henv => by
    refine .cons hrest.ne_nil (Leads.mono (Check.returns_checkItem
      (h.checked hR (.inr ⟨rfl, hres⟩) hΓ henv) h.boundName?) fun _ e ⟨ht, he⟩ => ?_)
    subst he
    obtain ⟨b, -, -, he⟩ := ht
    exact ⟨.same, (hrest.checked hR hres hΓ henv).mono fun _ ⟨σ, hσ, hreads, hrest⟩ =>
      ⟨σ, hσ, hreads, .expr he hrest⟩⟩
  | _, _, _, _, .bind tag xtag h hx hfree hrest, _, _, hres, hΓ, henv => by
    refine .cons hrest.ne_nil (Leads.mono (leads_check_alias henv tag xtag false _
      (h.checked hR (.inr ⟨rfl, hres⟩) hΓ henv) (hΓ.others _ hx) hfree) fun _ e he => ?_)
    obtain ⟨hopen, b, hreads, hvalue, henv'⟩ := he
    exact ⟨hopen, (hrest.checked hR hres (hΓ.cons _ hreads) henv').mono
      fun _ ⟨σ, hσ, hreads, hrest⟩ =>
        ⟨σ, hσ, hreads, .bind tag xtag hvalue (hΓ.others _ hx) hfree hrest⟩⟩

end

theorem residualChecks (store : Definitions) : ResidualChecks store := fun h henv =>
  (h.checked reading_known (.inl rfl) (assigns_eq _) henv).mono fun _ ⟨_, hb, heq, _⟩ => heq ▸ hb

variable {p : NodeId → Prop} {n : Node} {env : Env}

/-- A well-typed program passes the checker with its type. -/
theorem Program.passes {σ : Shape Builtin} {Γ : List (Name × Builtin)}
    (h : Program (fun b => b) store p Γ n σ) (henv : Checks store p Γ env) :
    Returns env (fun d => check d n) NoFault σ.Denotes :=
  (h.checked reading_known (residualChecks store) (assigns_eq Γ) henv).mono
    fun _ ⟨_, hσ, hreads, _⟩ => hreads.eq ▸ hσ

/-- A first-order program that passes the checker is well typed. -/
theorem Program.typed {σ : Shape Unit} (h : Program (fun _ => ()) store p [] n σ)
    (henv : Checks store p [] env) :
    Returns env (fun d => check d n) (· ≠ .void) fun t =>
      ∃ σ', σ'.Denotes t ∧ Program (fun b => b) store p [] n σ' :=
  (h.checked reading_unknown (residualChecks store) (assigns_nil _) henv).mono
    fun _ ⟨σ', hσ, _, h⟩ => ⟨σ', hσ, h⟩

end FirstOrder

end Residual
