/-
Evaluation of first-order code where names are kept. If it returns, it returns code of the same type
over the same names: operators on known numbers are folded and known branches are taken, but a name
stays a name, a call stays a call, and a sequence with aliases stays a block.
-/
import Residual.Proofs.Steps

namespace Residual

namespace FirstOrder

open Pass

variable {store : Definitions} {p : NodeId → Prop} {Γ : List (Name × Builtin)} {env : Env}

/-! ## Environments -/

/-- Names are kept: those in scope are the ones that are bound, and they stand for themselves. -/
structure Keeps (store : Definitions) (Γ : List (Name × Builtin)) (env : Env) :
    Prop extends env.Over store where
  resolve : env.resolve = false
  transparent : env.transparent = false
  vars : Binds (fun _ b => b.transparent = false ∧ b.rename = none) Γ env
  others : Covers Γ env

theorem Keeps.push (h : Keeps store Γ env) {b : Binding} (a : Builtin) (hb : store.IsFree b.name)
    (ht : b.transparent = false) (hr : b.rename = none) :
    Keeps store ((b.name, a) :: Γ) (env.push b) where
  toOver := h.toOver.push hb
  resolve := h.resolve
  transparent := h.transparent
  vars := h.vars.push ⟨ht, hr⟩
  others := h.others.push a b

/-! ## Names and sequences -/

variable {F : Fault → Prop}

/-- A name that is found, and is not transparent, stays. -/
theorem returns_kept (hr : env.resolve = false) {x : Name} {found : Found}
    (hx : env.lookup x = some found) (ht : found.isTransparent = false)
    (hn : found.rename? = none) (tag : Tag) :
    Returns env (fun _ => Eval.evalIdent tag x) F (· = .ident tag x) := by
  refine returns_env.bind fun _ henv => ?_
  subst henv
  simp only [hx, ht, hr, Bool.or_self, Bool.and_false, Bool.false_eq_true, if_false, hn]
  exact returns_pure rfl

/-- A sequence without aliases ends in code. -/
theorem Body.last_typed : ∀ {p : NodeId → Prop} {Γ : List (Name × Builtin)} {items : List Node}
    {σ : Shape Builtin}, Body (fun b => b) store p Γ items σ → ∀ {a : Builtin}, σ = .data a →
    items.any (·.isAlias) = false →
    ∃ v, items.getLast? = some v ∧ Typed store (.source p) Γ v a
  | _, _, _, _, .last (.code h), _, hσ, _ => by
    cases hσ
    exact ⟨_, rfl, h⟩
  | _, _, _, _, .expr h hrest, _, hσ, ha => by
    rw [List.any_cons, Bool.or_eq_false_iff] at ha
    obtain ⟨v, hlast, hv⟩ := hrest.last_typed hσ ha.2
    exact ⟨v, by rw [List.getLast?_cons, hlast]; rfl, hv⟩
  | _, _, _, _, .bind .., _, _, ha => by
    simp [Node.isAlias] at ha

theorem returns_block {vs : List Node} {a : Builtin}
    (h : Body (fun b => b) store p Γ vs (.data a)) (hr : env.resolve = false) (site : Span) :
    Returns env (fun _ => Eval.seqValue vs site) F (Typed store (.source p) Γ · a) := by
  refine Eval.returns_seqLast (fun hvalue => h.last_typed rfl (hvalue.resolve_left ?_))
    fun _ _ t => .block t h
  rw [hr]
  decide

variable {e : Node} {a : Builtin} {d : Nat}

/-- An alias whose name is free stays, and binds its name. -/
theorem leads_keep_assign (h : Keeps store Γ env) {x : Name} (tag xtag : Tag) (link : Option DefId)
    (hx : Γ.lookup x = none) (hfree : store.IsFree x)
    (hvalue : Returns env (fun _ => eval d e) F (Typed store (.source p) Γ · a)) :
    Leads env
      (fun _ => do Eval.bindLocal (← eval (d + 1) (.assign tag (.ident xtag x) e false link))) F
      fun w env' => ∃ t v link', w = .assign t (.ident xtag x) v false link' ∧
        Typed store (.source p) Γ v a ∧ env' = env.push ⟨x, v, false, none⟩ := by
  have hassign : Returns env (fun _ => eval (d + 1) (.assign tag (.ident xtag x) e false link)) F
      fun w => ∃ t v link', w = .assign t (.ident xtag x) v false link' ∧
        Typed store (.source p) Γ v a :=
    hvalue.bind fun v hv => returns_env.bind fun _ _ => (returns_tagAt _).bind fun t _ =>
      returns_pure ⟨t, v, _, rfl, hv⟩
  refine hassign.leads ?_
  rintro _ ⟨t, v, link', rfl, hv⟩
  refine returns_env.leads fun _ henv => ?_
  subst henv
  simp only [h.toOver.freshName_eq_none hfree (h.others x hx), h.transparent, Bool.or_self]
  exact Leads.push (leads_pure ⟨t, v, link', rfl, hv, rfl⟩)

/-- A call of a definition stays, with its argument evaluated; what it would become is looked at only
for its faults. -/
theorem returns_keep_call (h : Keeps store Γ env) {f : Name} {n : DefId} {v : Node} {arg : Node}
    {P : Node → Prop} (tag ftag : Tag) (hf : store.lookup f = some (n, v))
    (harg : Returns env (fun _ => eval d arg) AnyFault P) :
    Returns env (fun _ => Eval.evalCall (eval d) tag (.ident ftag f) arg) AnyFault
      fun w => ∃ t arg', w = .call t (.ident ftag f) arg' ∧ P arg' := by
  have hcallee := Eval.restores_evalType (restores_eval d) (.ident ftag f)
  refine Eval.returns_evalCall tag (hcallee.returns fun _ => trivial) harg
    (fun t param body w _ _ _ => ?_)
    fun f' w _ hw _ => Eval.returns_keptCallee (fun t x hx _ => ?_) fun hother => ?_
  · have happly := Eval.restores_apply (restores_eval d) (.func t param body) param body w tag.span
    refine (happly.returns fun _ => trivial).mono fun _ _ hr => ?_
    rw [h.resolve] at hr
    cases hr
  · cases hx
    exact (returns_kept h.resolve (h.toOver.lookup_defined hf) rfl rfl ftag).mono
      fun _ hc t => hc ▸ ⟨t, w, rfl, hw⟩
  · simp [Node.ident?, h.resolve] at hother

/-! ## Code -/

mutual

/-- Where names are kept, first-order code evaluates to code of its type and stage. -/
theorem Code.keeps : ∀ {g : Stage} {Γ : List (Name × Builtin)} {e : Node} {a : Builtin},
    Typed store g Γ e a → ∀ {env : Env}, Keeps store Γ env →
    ∀ d, Returns env (fun _ => eval d e) AnyFault (Typed store g Γ · a)
  | _, _, _, _, _, _, _, 0 => returns_throw trivial
  | _, _, _, _, .lit tag l, _, _, _ + 1 => returns_pure (.lit tag l)
  | _, _, _, _, .var tag h, _, henv, _ + 1 => by
    obtain ⟨b, hfind, ht, hr⟩ := henv.vars _ _ h
    exact (returns_kept henv.resolve (Env.lookup_bound hfind) ht hr tag).mono
      fun _ hv => hv ▸ .var tag h
  | _, _, _, _, .const tag hx hp hv, _, henv, _ + 1 =>
    (returns_kept henv.resolve (henv.toOver.lookup_defined hx) rfl rfl tag).mono
      fun _ heq => heq ▸ .const tag hx hp hv
  | _, _, _, _, .list tag h, _, henv, d + 1 => returns_list tag fun e he => (h e he).keeps henv d
  | _, _, _, _, .binOp tag hop hl hr, _, henv, d + 1 =>
    returns_binOp hop tag (hl.keeps henv d) (hr.keeps henv d)
  | _, _, _, _, .ifElse tag hc ht he, _, henv, d + 1 =>
    returns_if tag (hc.keeps henv d) (ht.keeps henv d) (he.keeps henv d)
  | _, _, _, _, .whileDo tag hc he, _, henv, d + 1 =>
    returns_while tag (hc.keeps henv d) (he.keeps henv d)
  | _, _, _, _, .matchOn tag hs hp hone hb hw, _, henv, d + 1 => by
    refine returns_match tag (hs.keeps henv d) (fun c hc hwild => (hp c hc hwild).keeps henv d)
      (fun c hc => ?_) hw
    obtain ⟨e, he⟩ := List.length_eq_one_iff.1 (hone c hc)
    exact ⟨e, he, (hb c hc e (by simp [he])).keeps henv d⟩
  | _, _, _, _, .block tag h, _, henv, d + 1 =>
    (Leads.scope (h.keeps rfl henv d)).bind fun vs hvs => returns_block hvs henv.resolve tag.span
  | _, _, _, _, .call tag ftag harg hf hp hty hx hfree hbody, _, henv, d + 1 => by
    refine (returns_keep_call henv tag ftag hf (harg.keeps henv d)).mono fun w hw => ?_
    obtain ⟨t, arg', rfl, harg'⟩ := hw
    exact .call t ftag harg' hf hp hty hx hfree hbody

theorem Body.keeps : ∀ {p : NodeId → Prop} {Γ : List (Name × Builtin)} {items : List Node}
    {σ : Shape Builtin}, Body (fun b => b) store p Γ items σ → ∀ {a : Builtin} {env : Env},
    σ = .data a → Keeps store Γ env → ∀ d,
    Leads env (fun _ => items.mapM fun item => do Eval.bindLocal (← eval d item)) AnyFault
      fun vs e => Body (fun b => b) store p Γ vs (.data a) ∧ Opened env e
  | _, _, _, _, .last (.code h), _, _, hσ, henv, d => by
    cases hσ
    exact leads_last (h.keeps henv d) (fun _ hv => hv.isAlias) fun v hv => .last (.code hv)
  | _, _, _, _, .expr h hrest, _, _, hσ, henv, d =>
    leads_next (h.keeps henv d) (fun _ hv => hv.isAlias) fun v hv =>
      (hrest.keeps hσ henv d).mono fun vs e ⟨hvs, hopen⟩ => ⟨.expr hv hvs, hopen⟩
  | _, _, _, _, .bind .., _, _, _, _, 0 => by
    simp only [List.mapM_cons]
    exact Leads.bind (Leads.bind (returns_throw (P := fun _ => False) trivial)
      fun _ _ h => h.1.elim) (P := fun _ _ => False) fun _ _ h => h.elim
  | _, _, _, _, .bind (x := x) (a := a) tag xtag h hx hfree hrest, _, _, hσ, henv, d + 1 => by
    refine Eval.leads_cons ((leads_keep_assign henv tag xtag _ hx hfree (h.keeps henv d)).mono ?_)
    rintro w e ⟨t, v, link', rfl, hv, rfl⟩
    have henv' := henv.push (b := ⟨x, v, false, none⟩) a hfree rfl rfl
    exact ⟨.push _ .same, (hrest.keeps hσ henv' (d + 1)).mono fun vs e ⟨hvs, hopen⟩ =>
      ⟨.bind t xtag hv hx hfree hvs, hopen⟩⟩

end

end FirstOrder

end Residual
