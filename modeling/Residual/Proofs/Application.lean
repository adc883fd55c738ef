/-
Calls of function literals. The function is evaluated under its binder, in either mode. Where names are
resolved, what is left of its body is then evaluated once more, with the parameter bound to the
argument. Where they are kept, the call stays, and passes the checker as the call of another literal.

The body that is left calls nothing any more, so it may be looked into wherever the function is.
-/
import Residual.Proofs.Preservation

namespace Residual

namespace FirstOrder

open Pass

variable {store : Definitions} {p : NodeId → Prop} {Γ : List (Name × Builtin)} {env : Env}
variable {F : Fault → Prop} {n : Node} {a : Builtin}

/-- A call of a function literal, where nothing is bound and nothing is being called. -/
inductive Application {τ : Type} (ty : Builtin → τ) (store : Definitions) : Node → τ → Prop where
  | call {param : Decl Node} {body : List Node} {arg : Node} {b : Builtin} {a : τ} (tag ftag : Tag)
    (hty : store.Declares param.ty b) (hfree : store.IsFree param.name)
    (hbody : Body ty store (fun i => Anybody i ∧ i ≠ ftag.id) [(param.name, ty b)] body (.data a))
    (harg : Code ty store (.source Anybody) [] arg (ty b)) :
    Application ty store (.call tag (.func ftag param body) arg) a

/-! ## The function -/

/-- Where names are resolved, a body becomes one that calls nothing. -/
theorem Body.leads_residual : ∀ {p : NodeId → Prop} {Γ : List (Name × Builtin)} {items : List Node}
    {σ : Shape Builtin}, Body (fun b => b) store p Γ items σ → ∀ {a : Builtin} {env : Env},
    σ = .data a → BindsProgram store p Γ env → env.resolve = true →
    Leads env (fun d => items.mapM fun item => do Eval.bindLocal (← eval d item)) F
      fun vs e => Body (fun b => b) store Nobody Γ vs (.data a) ∧ Opened env e
  | _, _, _, _, .last (.code h), _, _, hσ, henv, hr => by
    cases hσ
    exact leads_last (h.returns rfl (henv.interprets hr)) (fun _ hv => hv.isAlias)
      fun v hv => .last (.code (hv.weaken rfl fun _ _ hx => hx))
  | _, _, _, _, .expr h hrest, _, _, hσ, henv, hr => by
    refine leads_next (h.returns rfl (henv.interprets hr)) (fun _ hv => hv.isAlias) fun v hv => ?_
    exact (hrest.leads_residual hσ henv hr).mono fun vs e ⟨hvs, hopen⟩ =>
      ⟨.expr (hv.weaken rfl fun _ _ hx => hx) hvs, hopen⟩
  | _, _, _, _, .bind (x := x) tag xtag h hx hfree hrest, _, env, hσ, henv, hr => by
    refine Eval.leads_cons ((leads_alias tag xtag false _ (h.returns rfl (henv.interprets hr))).mono ?_)
    rintro _ _ ⟨v, hv, rfl, t, t', link, rfl⟩
    have hname : env.freshName x = none := henv.toOver.freshName_eq_none hfree (henv.others x hx)
    rw [hname, henv.transparent]
    exact ⟨.push _ .same, (hrest.leads_residual hσ (henv.push hx hfree (.inr fun _ => hv)) hr).mono
      fun vs e ⟨hvs, hopen⟩ => ⟨.bind t t' (hv.weaken rfl fun _ _ hx => hx) hx hfree hvs, hopen⟩⟩

/-- What becomes of a function literal. -/
def IsResidualOf (store : Definitions) (param : Decl Node) (b a : Builtin) (f : Node) : Prop :=
  ∃ t u body, f = .func t { param with ty := .builtin u b } body ∧
    Body (fun b => b) store Nobody [(param.name, b)] body (.data a)

theorem returns_literal (henv : env.IsFresh store) (hr : env.resolve = true) {tag : Tag}
    {param : Decl Node} {body : List Node} {b : Builtin} (hty : store.Declares param.ty b)
    (hfree : store.IsFree param.name)
    (hbody : Body (fun b => b) store (fun i => Anybody i ∧ i ≠ tag.id) [(param.name, b)] body
      (.data a)) :
    Returns env (fun d => eval d (.func tag param body)) F (IsResidualOf store param b a) := by
  have hname : env.freshName param.name = none :=
    henv.isOver.freshName_eq_none hfree (henv.find?_eq_none _)
  have hdeclared := Returns.under (returns_declared (F := F) (henv.resolve true).isOver rfl hty)
    (Guard.lawful_resolve true)
  refine Returns.succ (Eval.returns_evalFunc (B := fun _ vs => Body (fun b => b) store Nobody
    [(param.name, b)] vs (.data a)) hdeclared ?_ ?_)
  · rintro _ t ⟨u, rfl⟩
    rw [hname]
    exact Leads.scope (hbody.leads_residual rfl (((henv.bindsProgram Anybody).enterCall
      (.func tag param body)).push rfl hfree (.inl rfl)) hr)
  · rintro t _ vs ⟨u, rfl⟩ hvs
    rw [hname]
    exact ⟨t, u, vs, rfl, hvs⟩

/-! ## The call -/

namespace Application

/-- Where names are resolved, the call becomes residual code. -/
theorem returns (h : Application (fun b => b) store n a) (henv : env.IsFresh store)
    (hr : env.resolve = true) :
    Returns env (fun d => eval d n) F (Typed store .residual [] · a) := by
  cases h with
  | @call param body arg b _ tag ftag hty hfree hbody harg =>
    have hinterprets {p : NodeId → Prop} := (henv.bindsProgram p).interprets hr
    refine returns_unfolded tag hr (Returns.under (returns_literal (henv.resolve true) rfl hty hfree
      hbody) (Guard.lawful_resolve true)) (harg.returns rfl hinterprets) ?_
    rintro _ v ⟨t, u, body', rfl, hbody'⟩ hv
    have henv' := (hinterprets (p := Nobody)).apply (.func t { param with ty := .builtin u b } body')
      (b := ⟨param.name, v, true, none⟩) hfree (.known hv)
    exact ⟨t, _, body', rfl, .inl (henv.isOnStack _),
      (hbody'.mono fun _ hi => hi.elim).evals rfl henv'⟩

/-- Where names are kept, the call stays a call of a function literal. -/
theorem keeps (h : Application (fun b => b) store n a) (henv : env.IsFresh store)
    (hr : env.resolve = false) (d : Nat) :
    Returns env (fun _ => eval d n) AnyFault (Application (fun b => b) store · a) := by
  cases d with
  | zero => exact returns_throw trivial
  | succ d =>
    cases h with
    | @call param body arg b _ tag ftag hty hfree hbody harg =>
      have hcallee : Returns env (fun _ => Eval.evalType (eval d) (.func ftag param body)) AnyFault
          (IsResidualOf store param b a) :=
        (Returns.under (returns_literal (henv.resolve true) rfl hty hfree hbody)
          (Guard.lawful_resolve true)).at_depth
          (fun _ _ hle => (approximates_eval hle _).under) d
      refine Eval.returns_evalCall tag hcallee
        (harg.keeps ((henv.bindsProgram Nobody).keeps hr) d) (fun t param body v _ _ _ => ?_) ?_
      · have happly := Eval.restores_apply (restores_eval d) (.func t param body) param body v tag.span
        refine (happly.returns fun _ => trivial).mono fun _ _ hresolve => ?_
        rw [hr] at hresolve
        cases hresolve
      · rintro _ v ⟨t, u, body', rfl, hbody'⟩ hv -
        refine Eval.returns_keptCallee (fun _ _ hx => ?_) fun _ => Eval.returns_residualCallee
          (fun _ t' => .call t' t (.builtin u hty.isData) hfree (hbody'.mono fun _ hi => hi.elim) hv)
          fun _ _ _ hx => ?_
        all_goals cases hx

/-- The checker gives the call the type of what it becomes. -/
theorem checked {τ : Type} {ty : Builtin → τ} {reads : τ → Builtin → Prop} {a : τ}
    (hR : Reading ty reads F) (h : Application ty store n a) (henv : env.IsFresh store) :
    Returns env (fun d => check d n) F (Judged reads a (Application (fun b => b) store n)) := by
  cases h with
  | @call param body arg b _ tag ftag hty hfree hbody harg =>
    have hchecks := henv.checks Anybody
    have hcallee : Returns env (fun d => check d (.func ftag param body)) F fun ty =>
        ∃ tag id dom cod, ty = .fnType tag id dom cod ∧ IsDataType b dom ∧ ∃ c, reads a c ∧
          Body (fun b => b) store (fun i => Anybody i ∧ i ≠ ftag.id) [(param.name, b)] body
            (.data c) := by
      refine Returns.succ ((returns_checkFunc hchecks trivial hty hfree fun henv' =>
        (hbody.checked hR (residualChecks store) ((assigns_nil reads).cons _ (hR.self _)) henv').returns
          hbody.ne_nil _).mono ?_)
      rintro _ ⟨u, id, dom, cod, rfl, hdom, σ, -, hreads, hbody'⟩
      cases hreads with
      | data hreads => exact ⟨u, id, dom, cod, rfl, hdom, _, hreads, hbody'⟩
    refine Returns.succ ((returns_checkCall hR (residualChecks store) hchecks tag hcallee
      (harg.checked hR (.inr ⟨rfl, residualChecks store⟩) (assigns_nil reads) hchecks)
      (fun c hbody' => ?_) fun c hbody' harg' => ?_).mono ?_)
    · refine (returns_literal (henv.resolve true) rfl hty hfree hbody').mono ?_
      rintro _ ⟨t, u, body', rfl, -⟩
      exact ⟨t, _, body', rfl, hfree, rfl⟩
    · exact (Application.call tag ftag hty hfree hbody' harg').returns (henv.resolve true) rfl
    · rintro _ ⟨c, hc, hreads, hbody', harg'⟩
      exact ⟨c, hc, hreads, .call tag ftag hty hfree hbody' harg'⟩

/-- A well-typed call passes the checker with its type. -/
theorem passes (h : Application (fun b => b) store n a) (henv : env.IsFresh store) :
    Returns env (fun d => check d n) NoFault (IsDataType a) :=
  (h.checked reading_known henv).mono fun _ ⟨_, hb, heq, _⟩ => heq ▸ hb

end Application

end FirstOrder

end Residual
