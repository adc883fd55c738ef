/-
Evaluation of first-order code where names are resolved. It always returns, and what it returns is
residual code of the same type over the names that stay unknown: every call has been unfolded, every
alias replaced by its value and every block by its last node.
-/
import Residual.Proofs.Known

namespace Residual

namespace FirstOrder

open Pass

variable {store : Definitions} {p : NodeId → Prop} {Γ Δ : List (Name × Builtin)} {env : Env}

/-! ## Environments of evaluation -/

/-- A binding for a name of a type: either only the type is known, and the name stands for itself in
residual code, or the value is known residual code. -/
inductive Holds (store : Definitions) (Δ : List (Name × Builtin)) (a : Builtin) (b : Binding) :
    Prop where
  | unknown (h : b.value.isPlaceholder = true) (hr : b.rename = none)
    (hb : Δ.lookup b.name = some a)
  | known (h : Typed store .residual Δ b.value a)

/-- Names are resolved, and the names in scope have values of their types. -/
structure Interprets (store : Definitions) (p : NodeId → Prop) (Δ Γ : List (Name × Builtin))
    (env : Env) : Prop extends env.Over store where
  resolve : env.resolve = true
  calls : Avoids p env
  vars : Binds (Holds store Δ) Γ env

theorem Interprets.push (h : Interprets store p Δ Γ env) {b : Binding} {a : Builtin}
    (hb : store.IsFree b.name) (hv : Holds store Δ a b) :
    Interprets store p Δ ((b.name, a) :: Γ) (env.push b) where
  toOver := h.toOver.push hb
  resolve := h.resolve
  calls := h.calls
  vars := h.vars.push hv

/-- The environment in which the body of a function is evaluated. It sees nothing of its caller. -/
theorem Interprets.apply (h : Interprets store p Δ Γ env) (n : Node) {b : Binding} {a : Builtin}
    (hb : store.IsFree b.name) (hv : Holds store Δ a b) :
    Interprets store (fun i => p i ∧ i ≠ n.id) Δ [(b.name, a)]
      ({ env.enterCall n with transparent := true }.push b) where
  store_eq := h.store_eq
  names := (h.toOver.push hb).names
  resolve := h.resolve
  calls := h.calls.enterCall n
  vars := Binds.nil.push hv

/-! ## Names and calls -/

variable {F : Fault → Prop} {e : Node} {a : Builtin}

/-- A name becomes its value, or stays. -/
theorem returns_var (h : Interprets store p Δ Γ env) {x : Name} {a : Builtin}
    (hx : Γ.lookup x = some a) (tag : Tag) :
    Returns env (fun _ => Eval.evalIdent tag x) F (Typed store .residual Δ · a) := by
  obtain ⟨b, hfind, hb⟩ := h.vars x a hx
  refine returns_env.bind fun _ henv => ?_
  subst henv
  simp only [Env.lookup_bound hfind]
  cases hb with
  | unknown hp hr hΔ =>
    have hhold : (Found.bound b).isPlaceholder = true := hp
    have hname : (Found.bound b).rename? = none := hr
    simp only [hhold, hname, Bool.not_true, Bool.false_and]
    refine returns_pure (.var tag ?_)
    rw [← Locals.name_of_find? hfind]
    exact hΔ
  | known hv =>
    have hhold : (Found.bound b).isPlaceholder = false := hv.isPlaceholder
    simp only [hhold, h.resolve, Bool.not_false, Bool.true_and, Bool.true_or, if_true]
    exact returns_pure hv

/-- A call becomes the value of the body, with the parameter bound to the argument. -/
theorem returns_call (h : Interprets store p Δ Γ env) {f : Name} {d : DefId} {t : Tag}
    {param : Decl Node} {body : List Node} {arg : Node} {a b : Builtin} (tag ftag : Tag)
    (hf : store.lookup f = some (d, .func t param body)) (hp : p t.id)
    (hfree : store.IsFree param.name)
    (harg : Returns env (fun d => eval d arg) F (Typed store .residual Δ · b))
    (hbody : ∀ {env : Env}, Interprets store (fun i => p i ∧ i ≠ t.id) Δ [(param.name, b)] env →
      EvalsSeq env body F (Typed store .residual Δ · a)) :
    Returns env (fun d => eval d (.call tag (.ident ftag f) arg)) F
      (Typed store .residual Δ · a) := by
  have hstack : env.isOnStack (.func t param body) = false := by
    rw [Bool.eq_false_iff]
    exact fun hon => h.calls _ hon hp
  refine returns_unfold tag h.resolve (returns_function h.toOver hf ftag) harg
    (fun _ _ => .inl hstack) fun v hv => hbody ?_
  exact h.apply (.func t param body) (b := ⟨param.name, v, true, none⟩) hfree (.known hv)

/-! ## Code -/

mutual

/-- First-order code evaluates to residual code of its type. -/
theorem Code.returns : ∀ {g : Stage} {Γ : List (Name × Builtin)} {e : Node} {a : Builtin},
    Typed store g Γ e a → ∀ {p : NodeId → Prop} {env : Env}, g = .source p →
    Interprets store p Δ Γ env → Returns env (fun d => eval d e) F (Typed store .residual Δ · a)
  | _, _, _, _, .lit tag l, _, _, _, _ => Returns.succ (returns_pure (.lit tag l))
  | _, _, _, _, .var tag h, _, _, _, henv => Returns.succ (returns_var henv h tag)
  | _, _, _, _, .const tag hx _ hv, _, _, _, henv =>
    (returns_found henv.resolve (henv.toOver.lookup_defined hx) hv.isPlaceholder rfl tag).mono
      fun _ heq => heq ▸ hv.weaken rfl fun _ _ h => nomatch h
  | _, _, _, _, .list tag h, _, _, hg, henv =>
    Returns.succ (returns_list tag fun e he => (h e he).returns hg henv)
  | _, _, _, _, .binOp tag hop hl hr, _, _, hg, henv =>
    Returns.succ (returns_binOp hop tag (hl.returns hg henv) (hr.returns hg henv))
  | _, _, _, _, .ifElse tag hc ht he, _, _, hg, henv =>
    Returns.succ (returns_if tag (hc.returns hg henv) (ht.returns hg henv) (he.returns hg henv))
  | _, _, _, _, .whileDo tag hc he, _, _, hg, henv =>
    Returns.succ (returns_while tag (hc.returns hg henv) (he.returns hg henv))
  | _, _, _, _, .matchOn tag hs hp hone hb hw, _, _, hg, henv => by
    refine Returns.succ (returns_match tag (hs.returns hg henv)
      (fun c hc hwild => (hp c hc hwild).returns hg henv) (fun c hc => ?_) hw)
    obtain ⟨e, he⟩ := List.length_eq_one_iff.1 (hone c hc)
    exact ⟨e, he, (hb c hc e (by simp [he])).returns hg henv⟩
  | _, _, _, _, .block tag h, _, _, hg, henv => by
    cases hg
    exact Returns.succ ((h.evals rfl henv).value henv.resolve tag.span)
  | _, _, _, _, .call tag ftag harg hf hp _ _ hfree hbody, _, _, hg, henv => by
    cases hg
    exact returns_call henv tag ftag hf hp hfree (harg.returns rfl henv)
      fun henv' => hbody.evals rfl henv'

/-- The nodes of a sequence, each of which is seen by those after it. -/
theorem Body.evals : ∀ {p : NodeId → Prop} {Γ : List (Name × Builtin)} {items : List Node}
    {σ : Shape Builtin}, Body (fun b => b) store p Γ items σ → ∀ {a : Builtin} {env : Env},
    σ = .data a → Interprets store p Δ Γ env →
    EvalsSeq env items F (Typed store .residual Δ · a)
  | _, _, _, _, .last (.code h), _, _, hσ, henv => by
    cases hσ
    exact .last (h.returns rfl henv) fun _ hv => hv.isAlias
  | _, _, _, _, .expr h hrest, _, _, hσ, henv =>
    .next (h.returns rfl henv) (fun _ hv => hv.isAlias) (hrest.evals hσ henv)
  | _, _, _, _, .bind tag xtag h _ hfree hrest, _, _, hσ, henv =>
    .bind tag xtag _ _ (h.returns rfl henv) fun v hv =>
      hrest.evals hσ (henv.push (b := ⟨_, v, _, _⟩) hfree (.known hv))

end

end FirstOrder

end Residual
