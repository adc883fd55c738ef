/-
Evaluation of simply typed programs. What code evaluates to is code of its type, whether names are
resolved or kept; the only fault is that the nesting is too deep.

Evaluation moves code, so two scopes are told apart: the names of the code that is evaluated, and those
of the code that comes out. The environment offers a placeholder or a value for each name of the first
scope, and values and residual names are over the second one. A function that is called may have come
from anywhere, but it refers only to captured names, and these stand for themselves everywhere. Where
names are kept, the value of a call is thrown away, so there it does not matter in which way aliases are
treated.
-/
import Residual.Proofs.Rules
import Residual.Proofs.SimplyTyped
import Residual.Proofs.Steps

namespace Residual.SimplyTyped

open Pass Eval

variable {σ : Signature} {w u : Way} {Γ Δ P Q : Scope} {n : Node} {τ : Ty} {env : Env}

/-! ## Names -/

/-- The name itself, or one that is made up for it. -/
def IsFormOf (y x : Name) : Prop := y = x ∨ ∃ k, y = Env.suffixed x k

namespace IsFormOf

variable {x y : Name}

theorem var_eq (h : IsFormOf y x) : σ.var y = σ.var x := by
  rcases h with rfl | ⟨k, rfl⟩
  · rfl
  · exact σ.var_suffixed x k

theorem not_captured (h : IsFormOf y x) (hx : ¬ σ.captured x) : ¬ σ.captured y := by
  rcases h with rfl | ⟨k, rfl⟩
  · exact hx
  · exact σ.captured_suffixed x k

end IsFormOf

theorem isFormOf_freshName (env : Env) (x : Name) : IsFormOf ((env.freshName x).getD x) x := by
  cases ht : env.isTaken x with
  | false =>
    rw [Env.freshName_of_free ht]
    exact .inl rfl
  | true =>
    obtain ⟨k, hk, -⟩ := Env.freshName_of_taken ht
    rw [hk]
    exact .inr ⟨k, rfl⟩

/-- The name that a binder gets is as free as its own. -/
theorem isFree_freshName (h : env.Over σ.store) {x : Name} (hx : σ.store.IsFree x) :
    σ.store.IsFree ((env.freshName x).getD x) := by
  cases ht : env.isTaken x with
  | false =>
    rw [Env.freshName_of_free ht]
    exact hx
  | true =>
    obtain ⟨k, hk, hfree, -⟩ := Env.freshName_of_taken ht
    rw [Env.isTaken, Bool.or_eq_false_iff, h.store_eq, Definitions.contains_eq] at hfree
    rw [hk]
    exact ⟨Option.isNone_iff_eq_none.1 (Option.isSome_eq_false_iff.1 hfree.2), Env.ofName?_suffixed x k⟩

/-! ## Environments -/

/-- The way of what a name stands for. -/
def Way.stored : Way → Way
  | bare => bare
  | blocked | tidy => blocked

theorem Way.stored_ne_tidy (u : Way) : u.stored ≠ .tidy := by cases u <;> decide

theorem Way.stored_of_ne_tidy (h : u ≠ .tidy) : u.stored = u := by
  cases u with
  | tidy => exact absurd rfl h
  | _ => rfl

theorem Code.stored (h : Code σ u Γ n τ) : Code σ u.stored Γ n τ := by
  cases u with
  | bare => exact h
  | _ => exact h.blocked

/-- Code without aliases may be put anywhere, if it may be moved further. -/
theorem Code.lift (h : Code σ .bare Γ n τ) (hΓ : ∀ x, Γ x → P x) (hu : u ≠ .tidy) :
    Code σ u P n τ := by
  cases u with
  | bare => exact h.mono hu hΓ
  | blocked => exact h.blocked.mono hu hΓ
  | tidy => exact absurd rfl hu

/-- All that is known of a name is its type. -/
def IsUnknown (σ : Signature) (x : Name) (b : Binding) : Prop :=
  ∃ tag ty, b.value = .selfType tag ty ∧ IsType σ ty (σ.var x)

/-- The value of a name is known. Where names are kept it has a residual name, unless its value is put
in for it. -/
structure IsKnown (σ : Signature) (u : Way) (P : Scope) (resolve : Bool) (x : Name) (b : Binding) :
    Prop where
  value : Code σ u.stored P b.value (σ.var x)
  residual : resolve = false → b.transparent = false → P (b.rename.getD x)
  hidden : u = .tidy → b.transparent = false

/-- What a binding offers for its name. -/
structure Serves (σ : Signature) (u : Way) (P : Scope) (resolve : Bool) (x : Name) (b : Binding) :
    Prop where
  form : IsFormOf (b.rename.getD x) x
  value : IsUnknown σ x b ∧ P (b.rename.getD x) ∨ IsKnown σ u P resolve x b

/-- Nothing is bound but the names in scope, and no residual name is new. -/
structure Tight (Γ P : Scope) (env : Env) : Prop where
  names : ∀ b ∈ env.locals.bindings, Γ b.name
  residuals : ∀ x, P x → Γ x ∨ IsMadeUp x
  transparent : env.transparent = false

/-- An environment for code over `Γ`, which becomes code over `P`. -/
structure Supplies (σ : Signature) (u : Way) (Γ P : Scope) (env : Env) : Prop
    extends env.Over σ.store where
  vars : ∀ x, Γ x → ∃ b, env.locals.find? x = some b ∧ Serves σ u P env.resolve x b
  captured : ∀ x, σ.captured x → Γ x ∨ P x →
    P x ∧ ∃ b, env.locals.find? x = some b ∧ b.rename = none ∧ IsUnknown σ x b
  tight : u = .tidy → Tight Γ P env

theorem IsKnown.mono {r : Bool} {x : Name} {b : Binding} (h : IsKnown σ u P r x b)
    (hPQ : ∀ x, P x → Q x) : IsKnown σ u Q r x b where
  value := h.value.mono u.stored_ne_tidy hPQ
  residual hr ht := hPQ _ (h.residual hr ht)
  hidden := h.hidden

theorem Serves.mono {r : Bool} {x : Name} {b : Binding} (h : Serves σ u P r x b)
    (hPQ : ∀ x, P x → Q x) : Serves σ u Q r x b where
  form := h.form
  value := h.value.imp (fun ⟨hb, hx⟩ => ⟨hb, hPQ _ hx⟩) (·.mono hPQ)

/-- A placeholder that is not renamed serves as well where names are kept as where they are not. -/
theorem IsUnknown.serves {r : Bool} {x : Name} {b : Binding} (h : IsUnknown σ x b)
    (hrename : b.rename = none) (hx : P x) : Serves σ u P r x b where
  form := .inl (by rw [hrename, Option.getD_none])
  value := .inl ⟨h, by rwa [hrename, Option.getD_none]⟩

theorem Tight.find?_eq_none {x : Name} (h : Tight Γ P env) (hx : ¬ Γ x) :
    env.locals.find? x = none := by
  rw [Locals.find?_eq, List.find?_eq_none]
  intro b hb hname
  exact hx (beq_iff_eq.1 hname ▸ h.names b hb)

theorem Tight.push {b : Binding} {y : Name} (h : Tight Γ P env) (hy : IsFormOf y b.name) :
    Tight (Γ.insert b.name) (P.insert y) (env.push b) where
  names c hc := by
    rcases List.mem_cons.1 hc with rfl | hc
    · exact .inr rfl
    · exact .inl (h.names c hc)
  residuals x hx := by
    rcases hx with hx | rfl
    · exact (h.residuals x hx).imp_left .inl
    · exact hy.imp .inr fun ⟨k, hk⟩ => ⟨_, k, hk⟩
  transparent := h.transparent

namespace Supplies

theorem resolved (h : Supplies σ u Γ P env) : Supplies σ u Γ P { env with resolve := true } where
  store_eq := h.store_eq
  names := h.names
  vars x hx := by
    obtain ⟨b, hfind, hb⟩ := h.vars x hx
    exact ⟨b, hfind, hb.form, hb.value.imp_right fun hknown => { hknown with residual := nofun }⟩
  captured := h.captured
  tight hu := { h.tight hu with }

theorem called (h : Supplies σ u Γ P env) (n : Node) : Supplies σ u Γ P (env.enterCall n) :=
  { h with tight := fun hu => { h.tight hu with } }

theorem transparent (h : Supplies σ u Γ P env) (hu : u ≠ .tidy) (t : Bool) :
    Supplies σ u Γ P { env with transparent := t } :=
  { h with tight := fun htidy => absurd htidy hu }

/-- What names stand for may be moved. -/
theorem stored (h : Supplies σ u Γ P env) : Supplies σ u.stored Γ P env where
  toOver := h.toOver
  vars x hx := by
    obtain ⟨b, hfind, hb⟩ := h.vars x hx
    refine ⟨b, hfind, hb.form, hb.value.imp_right fun hknown => ?_⟩
    exact ⟨hknown.value.stored, hknown.residual, fun hu => absurd hu u.stored_ne_tidy⟩
  captured := h.captured
  tight hu := absurd hu u.stored_ne_tidy

theorem blocked (h : Supplies σ u Γ P env) : Supplies σ .blocked Γ P env where
  toOver := h.toOver
  vars x hx := by
    obtain ⟨b, hfind, hb⟩ := h.vars x hx
    refine ⟨b, hfind, hb.form, hb.value.imp_right fun hknown => ?_⟩
    exact ⟨hknown.value.blocked, hknown.residual, (absurd · Way.blocked_ne_tidy)⟩
  captured := h.captured
  tight htidy := absurd htidy Way.blocked_ne_tidy

theorem restrict (h : Supplies σ u Γ P env) (hu : u ≠ .tidy) (hΔ : ∀ x, Δ x → Γ x) :
    Supplies σ u Δ P env where
  toOver := h.toOver
  vars x hx := h.vars x (hΔ x hx)
  captured x hx hin := h.captured x hx (hin.imp_left (hΔ x))
  tight htidy := absurd htidy hu

/-- Captured names stand for themselves. -/
theorem outer (h : Supplies σ u Γ P env) (hw : w ≠ .tidy) :
    Supplies σ w (σ.outer Γ) (σ.outer P) env where
  toOver := h.toOver
  vars x hx := by
    obtain ⟨hP, b, hfind, hrename, hb⟩ := h.captured x hx.2 (.inl hx.1)
    exact ⟨b, hfind, hb.serves hrename ⟨hP, hx.2⟩⟩
  captured x hx hin := by
    obtain ⟨hP, hb⟩ := h.captured x hx (hin.imp And.left And.left)
    exact ⟨⟨hP, hx⟩, hb⟩
  tight hu := absurd hu hw

/-- Captured names of residual code are those of source code. -/
theorem residual (h : Supplies σ u Γ P env) (hu : u ≠ .tidy) : Supplies σ u (σ.outer P) P env where
  toOver := h.toOver
  vars x hx := by
    obtain ⟨hP, b, hfind, hrename, hb⟩ := h.captured x hx.2 (.inr hx.1)
    exact ⟨b, hfind, hb.serves hrename hP⟩
  captured x hx hin := h.captured x hx (.inr (hin.elim And.left id))
  tight htidy := absurd htidy hu

/-- One more name is bound. A captured name can only be bound to a placeholder. -/
theorem push (h : Supplies σ u Γ P env) (b : Binding) (hfree : σ.store.IsFree b.name)
    (hPQ : ∀ x, P x → Q x) (hQ : ∀ x, σ.captured x → Q x → P x ∨ x = b.name)
    (hcap : σ.captured b.name → b.rename = none ∧ IsUnknown σ b.name b)
    (hb : Serves σ u Q env.resolve b.name b)
    (htight : u = .tidy → Tight (Γ.insert b.name) Q (env.push b)) :
    Supplies σ u (Γ.insert b.name) Q (env.push b) where
  toOver := h.toOver.push hfree
  vars x hx := by
    by_cases hname : x = b.name
    · subst hname
      exact ⟨b, env.locals.find?_push_self b, hb⟩
    · obtain ⟨c, hfind, hc⟩ := h.vars x (hx.resolve_right hname)
      exact ⟨c, (Locals.find?_push_of_ne hname).trans hfind, hc.mono hPQ⟩
  captured x hx hin := by
    by_cases hname : x = b.name
    · subst hname
      obtain ⟨hrename, hunknown⟩ := hcap hx
      have hres : Q (b.rename.getD b.name) :=
        hb.value.elim And.right fun hknown => by
          obtain ⟨tag, ty, hvalue, -⟩ := hunknown
          have hcode := hknown.value
          rw [hvalue] at hcode
          cases hcode
      rw [hrename] at hres
      exact ⟨hres, b, env.locals.find?_push_self b, hrename, hunknown⟩
    · have hin' : Γ x ∨ P x := hin.imp (·.resolve_right hname) fun hQx =>
        (hQ x hx hQx).resolve_right hname
      obtain ⟨hP, c, hfind, hc⟩ := h.captured x hx hin'
      exact ⟨hPQ x hP, c, (Locals.find?_push_of_ne hname).trans hfind, hc⟩
  tight := htight

/-- A parameter is bound to the argument of a call. -/
theorem push_arg {x : Name} {v : Node} (h : Supplies σ u Γ P env) (hu : u ≠ .tidy)
    (hfree : σ.store.IsFree x) (hcap : ¬ σ.captured x) (hv : Code σ u P v (σ.var x)) :
    Supplies σ u (Γ.insert x) P (env.push ⟨x, v, true, none⟩) := by
  refine h.push ⟨x, v, true, none⟩ hfree (fun _ hx => hx) (fun _ _ => .inl) (fun hx => absurd hx hcap) ?_
    fun htidy => absurd htidy hu
  exact ⟨.inl rfl, .inr ⟨hv.stored, nofun, fun htidy => absurd htidy hu⟩⟩

/-- An alias is bound to its value where names are resolved, whatever its residual name is. -/
theorem push_alias {x : Name} {v : Node} (h : Supplies σ u Γ P env) (hu : u ≠ .tidy)
    (hr : env.resolve = true) (hfree : σ.store.IsFree x) (hcap : ¬ σ.captured x)
    (hv : Code σ u P v (σ.var x)) (t : Bool) :
    Supplies σ u (Γ.insert x) P (env.push ⟨x, v, t, env.freshName x⟩) := by
  refine h.push ⟨x, v, t, env.freshName x⟩ hfree (fun _ hx => hx) (fun _ _ => .inl)
    (fun hx => absurd hx hcap) ?_ fun htidy => absurd htidy hu
  refine ⟨isFormOf_freshName env x, .inr ⟨hv.stored, fun hkept => ?_, fun htidy => absurd htidy hu⟩⟩
  rw [hr] at hkept
  cases hkept

/-- A parameter of which the type is known, under its residual name. -/
theorem push_param {x : Name} {ty : Node} (h : Supplies σ u Γ P env) (hu : u ≠ .tidy)
    (hfree : σ.store.IsFree x) (hcap : ¬ σ.captured x) (hty : IsType σ ty (σ.var x)) (tag : Tag)
    {rename : Option Name} (hform : IsFormOf (rename.getD x) x) :
    Supplies σ u (Γ.insert x) (P.insert (rename.getD x))
      (env.push ⟨x, .selfType tag ty, false, rename⟩) := by
  refine h.push ⟨x, .selfType tag ty, false, rename⟩ hfree (fun _ => .inl)
    (fun y hy hQ => .inl (hQ.resolve_right ?_)) (fun hx => absurd hx hcap) ?_
    fun htidy => absurd htidy hu
  · rintro rfl
    exact hform.not_captured hcap hy
  · exact ⟨hform, .inl ⟨⟨tag, ty, rfl, hty⟩, .inr rfl⟩⟩

end Supplies

/-- Where names are resolved, all aliases are put in; where they are kept, code stays as it is. -/
def Mode (w u : Way) (env : Env) : Prop :=
  env.resolve = true ∧ u ≠ .tidy ∨ env.resolve = false ∧ w = u

/-! ## Evaluators -/

/-- The one fault of evaluation. -/
abbrev TooDeep : Fault → Prop := (· = .exhausted)

/-- What is known of the evaluator of the parts. -/
structure IsEvaluator (σ : Signature) (ev : Node → Pass Node) : Prop where
  code : ∀ {w u : Way} {Γ P : Scope} {n : Node} {τ : Ty} {env : Env}, Code σ w Γ n τ →
    Supplies σ u Γ P env → Mode w u env → Returns env (fun _ => ev n) TooDeep (Code σ u P · τ)
  assign : ∀ {w u : Way} {Γ P : Scope} {value : Node} {τ : Ty} {env : Env} (tag : Tag) (target : Node)
    (transparent : Bool) (link : Option DefId), Code σ w Γ value τ → Supplies σ u Γ P env →
    Mode w u env → Returns env (fun _ => ev (.assign tag target value transparent link)) TooDeep
      fun v => ∃ tag' value' link', v = .assign tag' target value' transparent link' ∧
        Code σ u P value' τ
  type : ∀ {n : Node} {τ : Ty} {env : Env}, Denotes σ n τ → env.Over σ.store → env.resolve = true →
    Returns env (fun _ => ev n) TooDeep (IsType σ · τ)
  callee : ∀ {g : Name} {δ κ : Ty} {env : Env} (tag : Tag), σ.use g = some (.call δ κ) →
    env.Over σ.store → env.resolve = true →
    Returns env (fun _ => ev (.ident tag g)) TooDeep fun f => ∃ d, σ.store.lookup g = some (d, f)

variable {ev : Node → Pass Node}

theorem IsEvaluator.evalType (hev : IsEvaluator σ ev) (h : Denotes σ n τ) (henv : env.Over σ.store) :
    Returns env (fun _ => evalType ev n) TooDeep (IsType σ · τ) :=
  returns_evalType (hev.type h { henv with } rfl)

/-! ### Sequences -/

/-- What a sequence becomes: where names are resolved its last node is code by itself; where they are
kept, or where nothing is bound, it is a sequence again. -/
structure Ran (σ : Signature) (u : Way) (a : Bool) (P : Scope) (resolve : Bool) (vs : List Node)
    (τ : Ty) : Prop where
  last : resolve = true → ∃ v, vs.getLast? = some v ∧ Code σ u P v τ
  items : resolve = false ∨ a = false → Items σ u a P vs τ

theorem Items.aliased {a : Bool} {items : List Node} (h : Items σ w a Γ items τ) :
    Items σ w true Γ items τ := by
  induction items generalizing a Γ with
  | nil => cases h
  | cons n rest ih =>
    cases h with
    | last h => exact .last h
    | next h hrest => exact .next h (ih hrest)
    | bind tag xtag hx hfree hcap h hrest => exact .bind tag xtag hx hfree hcap h hrest

/-- Without aliases, the last node of a sequence is code by itself. -/
theorem Items.exists_last {a : Bool} {items : List Node} (h : Items σ w a Γ items τ)
    (hnone : items.any (·.isAlias) = false) : ∃ v, items.getLast? = some v ∧ Code σ w Γ v τ := by
  induction items with
  | nil => cases h
  | cons n rest ih =>
    rw [List.any_cons, Bool.or_eq_false_iff] at hnone
    cases h with
    | last h => exact ⟨n, rfl, h⟩
    | next h hrest => exact exists_last_cons (ih hrest hnone.2)
    | bind => cases hnone.1

namespace Ran

theorem single {a : Bool} {r : Bool} (h : Code σ u P n τ) : Ran σ u a P r [n] τ where
  last _ := ⟨n, rfl, h⟩
  items _ := .last h

theorem next {a r : Bool} {vs : List Node} {κ : Ty} (hn : Code σ u P n κ) (h : Ran σ u a P r vs τ) :
    Ran σ u a P r (n :: vs) τ where
  last hr := exists_last_cons (h.last hr)
  items hr := .next hn (h.items hr)

end Ran

/-- An alias is bound for what comes after it. Where names are resolved its value is put in for it;
where they are kept it has a name in residual code. -/
theorem Supplies.leads_alias (h : Supplies σ u Γ P env) (hm : Mode w u env) {x : Name} {value : Node}
    {transparent : Bool} (tag xtag : Tag) (link : Option DefId) (hx : w.Binds Γ x transparent)
    (hfree : σ.store.IsFree x) (hcap : ¬ σ.captured x) (hvalue : Code σ u P value (σ.var x)) :
    Leads env (fun _ => bindLocal (.assign tag (.ident xtag x) value transparent link)) TooDeep
      fun v e => Opened env e ∧ e.resolve = env.resolve ∧
        (env.resolve = true ∧ Supplies σ u (Γ.insert x) P e ∨
          env.resolve = false ∧ Supplies σ u (Γ.insert x) (P.insert ((env.freshName x).getD x)) e ∧
          ∀ {rest : List Node}, Items σ u true (P.insert ((env.freshName x).getD x)) rest τ →
            Items σ u true P (v :: rest) τ) := by
  refine (leads_bindAlias tag xtag x value transparent link).mono ?_
  rintro v e ⟨⟨tag', xtag', link', rfl⟩, rfl⟩
  refine ⟨.push _ .same, rfl, ?_⟩
  let b : Binding := ⟨x, value, transparent || env.transparent, env.freshName x⟩
  have hform := isFormOf_freshName env x
  rcases hm with ⟨hr, hu⟩ | ⟨hr, rfl⟩
  · exact .inl ⟨hr, h.push_alias hu hr hfree hcap hvalue _⟩
  · have hvar : Code σ w P value (σ.var ((env.freshName x).getD x)) := hform.var_eq ▸ hvalue
    -- Where code is tidy, the name of the alias was not bound, and is no other one now.
    have htidy : w = .tidy → Tight Γ P env ∧ ¬ Γ x ∧ ¬ IsMadeUp x ∧ transparent = false ∧
        env.freshName x = none := by
      rintro rfl
      have htight := h.tight rfl
      exact ⟨htight, hx.1, hx.2.1, hx.2.2,
        h.toOver.freshName_eq_none hfree (htight.find?_eq_none hx.1)⟩
    refine .inr ⟨hr, h.push b hfree (fun _ => .inl) (fun y hy hQ => .inl (hQ.resolve_right ?_))
      (fun hx => absurd hx hcap) ⟨hform, .inr ⟨?_, fun _ _ => .inr rfl, fun hw => ?_⟩⟩ fun hw => ?_,
      fun hrest => ?_⟩
    · rintro rfl
      exact hform.not_captured hcap hy
    · exact hvalue.stored.mono w.stored_ne_tidy fun _ => .inl
    · obtain ⟨htight, -, -, ht, -⟩ := htidy hw
      show (transparent || env.transparent) = false
      rw [ht, htight.transparent]
      rfl
    · exact (htidy hw).1.push hform
    · refine .bind _ _ ?_ (isFree_freshName h.toOver hfree) (hform.not_captured hcap) hvar hrest
      cases w with
      | bare => exact hx
      | blocked => trivial
      | tidy =>
        obtain ⟨htight, hnew, hmade, ht, hname⟩ := htidy rfl
        rw [hname]
        exact ⟨fun hP => (htight.residuals x hP).elim hnew hmade, hmade, ht⟩

namespace IsEvaluator

/-- Each node of a sequence is evaluated in the environment that the nodes before it have left. -/
theorem leads_items (hev : IsEvaluator σ ev) {a : Bool} {items : List Node} :
    ∀ {Γ P : Scope} {env : Env}, Items σ w a Γ items τ → Supplies σ u Γ P env → Mode w u env →
    Leads env (fun _ => items.mapM fun item => do bindLocal (← ev item)) TooDeep
      fun vs e => Ran σ u a P env.resolve vs τ ∧ Opened env e := by
  induction items with
  | nil => exact fun h => nomatch h
  | cons n rest ih =>
    intro Γ P env h henv hm
    cases h with
    | last hn =>
      exact FirstOrder.leads_last (hev.code hn henv hm) (fun _ hv => hv.isAlias) fun v hv => .single hv
    | next hn hrest =>
      exact FirstOrder.leads_next (hev.code hn henv hm) (fun _ hv => hv.isAlias) fun v hv =>
        (ih hrest henv hm).mono fun vs e hvs => ⟨hvs.1.next hv, hvs.2⟩
    | bind tag xtag hx hfree hcap hvalue hrest =>
      rename_i x value transparent link
      have hitem := (hev.assign tag (.ident xtag x) transparent link hvalue henv hm).leads fun v hv => by
        obtain ⟨tag', value', link', rfl, hvalue'⟩ := hv
        exact henv.leads_alias (τ := τ) hm tag' xtag link' hx hfree hcap hvalue'
      refine leads_cons (hitem.mono ?_)
      rintro v e ⟨hopen, hmode, ⟨hr, henv'⟩ | ⟨hr, henv', hitems⟩⟩
      · have hm' : Mode w u e := hm.imp (hmode ▸ ·) (hmode ▸ ·)
        refine ⟨hopen, (ih hrest henv' hm').mono ?_⟩
        rintro vs e' ⟨hvs, hopen'⟩
        rw [hmode] at hvs
        refine ⟨⟨fun _ => exists_last_cons (hvs.last hr), fun hkept => ?_⟩, hopen'⟩
        simp [hr] at hkept
      · have hm' : Mode w u e := hm.imp (hmode ▸ ·) (hmode ▸ ·)
        refine ⟨hopen, (ih hrest henv' hm').mono ?_⟩
        rintro vs e' ⟨hvs, hopen'⟩
        rw [hmode] at hvs
        refine ⟨⟨fun hr' => ?_, fun _ => hitems (hvs.items (.inl hr))⟩, hopen'⟩
        rw [hr] at hr'
        cases hr'

theorem returns_evalSeq (hev : IsEvaluator σ ev) {a : Bool} {items : List Node}
    (h : Items σ w a Γ items τ) (henv : Supplies σ u Γ P env) (hm : Mode w u env) :
    Returns env (fun _ => Eval.evalSeq ev items) TooDeep (Ran σ u a P env.resolve · τ) :=
  Leads.scope (hev.leads_items h henv hm)

theorem returns_value (hev : IsEvaluator σ ev) {a : Bool} {items : List Node}
    (h : Items σ w a Γ items τ) (henv : Supplies σ u Γ P env) (hm : Mode w u env) (site : Span) :
    Returns env (fun _ => Eval.evalSeq ev items >>= (seqValue · site)) TooDeep (Code σ u P · τ) := by
  refine (hev.returns_evalSeq h henv hm).bind fun vs hvs => returns_seqLast (fun hlast => ?_)
    fun hr _ t => .block t (hvs.items (.inl hr)).aliased
  rcases hlast with hr | hnone
  · exact hvs.last hr
  · cases hr : env.resolve with
    | true => exact hvs.last hr
    | false => exact (hvs.items (.inl hr)).exists_last hnone

/-! ### Types -/

/-- The fields of a record are evaluated to what they stand for. -/
theorem returns_fields (hev : IsEvaluator σ ev) {id : TypeId} {fields : List (Decl Node)}
    (h : ∀ d ∈ fields, Denotes σ d.ty (σ.field id d.name)) (henv : env.Over σ.store) :
    Returns env (fun _ => fields.mapM (evalDecl ev)) TooDeep
      (Traversed (fun d d' => d'.name = d.name ∧ IsType σ d'.ty (σ.field id d.name)) fields) :=
  Returns.mapM fun d hd => (hev.evalType (h d hd) henv).bind fun _ hty => returns_pure ⟨rfl, hty⟩

theorem isType_of_traversed {id : TypeId} {fields fields' : List (Decl Node)} (tag : Tag)
    (hnames : ∀ f, σ.hasField id f ↔ ∃ d ∈ fields, d.name = f)
    (h : Traversed (fun d d' => d'.name = d.name ∧ IsType σ d'.ty (σ.field id d.name)) fields fields') :
    IsType σ (.record tag id fields' none) (.record id) := by
  refine .record tag (fun d' hd' => ?_) fun f => ?_
  · obtain ⟨d, -, hname, hty⟩ := h.origin d' hd'
    exact .type (hname ▸ hty)
  · rw [hnames]
    constructor
    · rintro ⟨d, hd, rfl⟩
      obtain ⟨d', hd', hname, -⟩ := h.result d hd
      exact ⟨d', hd', hname⟩
    · rintro ⟨d', hd', rfl⟩
      obtain ⟨d, hd, hname, -⟩ := h.origin d' hd'
      exact ⟨d, hd, hname.symm⟩

theorem returns_fnType (hev : IsEvaluator σ ev) {dom cod : Node} {δ κ : Ty} (tag : Tag) (id : TypeId)
    (hdom : Denotes σ dom δ) (hcod : Denotes σ cod κ) (henv : env.Over σ.store) :
    Returns env (fun _ => step ev (.fnType tag id dom cod)) TooDeep (IsType σ · (.fn δ κ)) :=
  (hev.evalType hdom henv).bind fun _ hdom' => (hev.evalType hcod henv).bind fun _ hcod' =>
    (returns_tagAt _).bind fun t _ => returns_pure (.fn t id hdom' hcod')

/-- A step on a type expression. -/
theorem step_type (hσ : σ.IsSound) (hev : IsEvaluator σ ev) (h : Denotes σ n τ)
    (henv : env.Over σ.store) (hr : env.resolve = true) :
    Returns env (fun _ => step ev n) TooDeep (IsType σ · τ) := by
  cases h with
  | type h =>
    cases h with
    | builtin tag b => exact returns_pure (.builtin tag b)
    | enum tag id => exact returns_pure (.enum tag id)
    | record tag hfields hnames =>
      exact (hev.returns_fields hfields henv).bind fun _ hfields' => (returns_tagAt _).bind fun t _ =>
        returns_pure (isType_of_traversed t hnames hfields')
    | fn tag id hdom hcod => exact hev.returns_fnType tag id (.type hdom) (.type hcod) henv
  | builtin tag hb =>
    refine returns_evalFound tag (henv.lookup_builtin hb) (fun _ _ => ?_) fun hkept => ?_
    · exact (returns_tagAt _).bind fun t _ => returns_pure (.builtin t _)
    · simp [Found.isPlaceholder, hr] at hkept
  | defined tag hx =>
    obtain ⟨d, ty, hdef, hty⟩ := hσ.type hx
    refine returns_evalFound tag (henv.lookup_defined hdef) (fun _ _ => returns_pure hty) fun hkept => ?_
    simp [Found.isPlaceholder, hty.isPlaceholder, hr] at hkept
  | fn tag id hdom hcod => exact hev.returns_fnType tag id hdom hcod henv

/-! ### Names -/

/-- A name stays a name where code is tidy. -/
def Named (σ : Signature) (u : Way) (P : Scope) (τ : Ty) (k : Node) : Prop :=
  Code σ u P k τ ∧ (u = .tidy → k.ident?.isSome = true)

theorem returns_var (henv : Supplies σ u Γ P env) (hm : Mode w u env) {x : Name} (tag : Tag)
    (hx : Γ x) : Returns env (fun _ => evalIdent tag x) TooDeep (Named σ u P (σ.var x)) := by
  obtain ⟨b, hfind, hb⟩ := henv.vars x hx
  have hvar (hP : P (b.rename.getD x)) (t : Tag) :
      Named σ u P (σ.var x) (.ident t (b.rename.getD x)) :=
    ⟨hb.form.var_eq ▸ .var t hP, fun _ => rfl⟩
  refine returns_evalFound tag (Env.lookup_bound hfind) (fun hunknown hput => ?_) fun hkept => ?_
  · rcases hb.value with ⟨⟨ptag, ty, hvalue, -⟩, -⟩ | hknown
    · simp [Found.isPlaceholder, hvalue, Node.isPlaceholder] at hunknown
    · have hu : u ≠ .tidy := by
        rintro rfl
        rcases hm with ⟨-, hu⟩ | ⟨hr, -⟩
        · exact hu rfl
        · simp [hr, Found.isTransparent, hknown.hidden rfl] at hput
      have hcode := hknown.value
      rw [Way.stored_of_ne_tidy hu] at hcode
      exact returns_pure ⟨hcode, fun htidy => absurd htidy hu⟩
  · rcases hb.value with ⟨-, hP⟩ | hknown
    · exact hvar hP
    · have hstays := hkept.resolve_left (by simp [Found.isPlaceholder, hknown.value.isPlaceholder])
      rw [Bool.or_eq_false_iff] at hstays
      exact hvar (hknown.residual hstays.1 hstays.2)

theorem returns_const (hσ : σ.IsSound) (henv : env.Over σ.store) (hm : Mode w u env) {x : Name}
    (tag : Tag) (hx : σ.use x = some (.value τ)) :
    Returns env (fun _ => evalIdent tag x) TooDeep (Named σ u P τ) := by
  obtain ⟨d, v, hdef, hv⟩ := hσ.value hx
  refine returns_evalFound tag (henv.lookup_defined hdef) (fun _ hput => ?_) fun _ t =>
    ⟨.value t hx, fun _ => rfl⟩
  have hu : u ≠ .tidy := by
    rcases hm with ⟨-, hu⟩ | ⟨hr, -⟩
    · exact hu
    · simp [hr, Found.isTransparent] at hput
  exact returns_pure ⟨hv.lift (fun _ h => h.elim) hu, fun htidy => absurd htidy hu⟩

theorem returns_ident (hσ : σ.IsSound) (henv : Supplies σ u Γ P env) (hm : Mode w u env) {x : Name}
    {tag : Tag} (h : Code σ w Γ (.ident tag x) τ) :
    Returns env (fun _ => evalIdent tag x) TooDeep (Named σ u P τ) := by
  rcases h.of_ident with ⟨hx, rfl⟩ | hx
  · exact returns_var henv hm tag hx
  · exact returns_const hσ henv.toOver hm tag hx

/-- A name in scope is bound, so one that is not bound is that of a definition. -/
theorem use_of_lookup (henv : Supplies σ u Γ P env) {x : Name} {tag : Tag} {found : Found}
    (h : Code σ w Γ (.ident tag x) τ) (hlookup : env.lookup x = some found)
    (hdef : (∃ d v, found = .defined d v) ∨ ∃ b, found = .builtin b) : σ.use x = some (.value τ) := by
  refine h.of_ident.resolve_left fun ⟨hx, _⟩ => ?_
  obtain ⟨b, hfind, -⟩ := henv.vars x hx
  rw [Env.lookup_bound hfind] at hlookup
  cases hlookup
  rcases hdef with ⟨_, _, hdef⟩ | ⟨_, hdef⟩ <;> cases hdef

/-! ### Calls -/

/-- A function that can be called where residual code is over `P`: it refers to its parameter and to
captured names. -/
inductive IsCallable (σ : Signature) (P : Scope) : Node → Ty → Ty → Prop where
  | mk {w : Way} {a : Bool} {Γ : Scope} {param : Decl Node} {body : List Node} {κ : Ty} (tag : Tag)
    (hfree : σ.store.IsFree param.name) (hcap : ¬ σ.captured param.name)
    (hΓ : ∀ x, Γ x → (σ.outer P).insert param.name x) (hbody : Items σ w a Γ body κ) :
    IsCallable σ P (.func tag param body) (σ.var param.name) κ

variable {δ κ : Ty} {f v : Node}

theorem isCallable_of_code (h : Code σ w Δ f (.fn δ κ)) (hf : f.isFunc = true)
    (hΔ : ∀ x, σ.outer Δ x → σ.outer P x) : IsCallable σ P f δ κ := by
  obtain ⟨tag, param, body, rfl⟩ := exists_of_isFunc hf
  obtain ⟨rfl, -, hfree, hcap, hbody⟩ := h.of_func
  exact .mk tag hfree hcap (Scope.insert_mono hΔ _) hbody

theorem isCallable_of_defined (hσ : σ.IsSound) {g : Name} {d : DefId}
    (hg : σ.use g = some (.call δ κ)) (hf : σ.store.lookup g = some (d, f)) :
    IsCallable σ P f δ κ ∧ f.isFunc = true := by
  obtain ⟨d', tag, param, body, hdef, rfl, -, hfree, hcap, hbody⟩ := hσ.call hg
  rw [hf] at hdef
  cases hdef
  exact ⟨.mk tag hfree hcap (fun x hx => .inr (hx.resolve_left id)) hbody, rfl⟩

/-- The body of a function, with its parameter bound to an argument. -/
theorem returns_apply (hev : IsEvaluator σ ev) {tag : Tag} {param : Decl Node} {body : List Node}
    (hf : IsCallable σ P (.func tag param body) δ κ) (henv : Supplies σ u Γ P env) (hu : u ≠ .tidy)
    (hm : env.resolve = true ∨ u = .blocked) (hv : Code σ u P v δ) (site : Span) :
    Returns env (fun _ => apply ev (.func tag param body) param body v site) TooDeep
      (Code σ u P · κ) := by
  cases hf with
  | mk _ hfree hcap hΓ hbody =>
    have henv' := ((((henv.residual hu).called (.func tag param body)).transparent hu true).push_arg hu
      hfree hcap hv).restrict hu hΓ
    refine Eval.returns_apply ?_
    rcases hm with hr | rfl
    · exact hev.returns_value hbody henv' (.inl ⟨hr, hu⟩) site
    · cases hr : env.resolve with
      | true => exact hev.returns_value hbody henv' (.inl ⟨hr, hu⟩) site
      | false => exact hev.returns_value hbody.blocked henv' (.inr ⟨hr, rfl⟩) site

/-- What a call is unfolded to. Where names are kept, this is thrown away. -/
theorem returns_unfold (hev : IsEvaluator σ ev) {tag : Tag} {param : Decl Node} {body : List Node}
    (hf : IsCallable σ P (.func tag param body) δ κ) (henv : Supplies σ u Γ P env) (hm : Mode w u env)
    (hv : Code σ u P v δ) (site : Span) :
    Returns env (fun _ => apply ev (.func tag param body) param body v site) TooDeep
      fun c => env.resolve = true → Code σ u P c κ := by
  rcases hm with ⟨hr, hu⟩ | ⟨hr, -⟩
  · exact (hev.returns_apply hf henv hu (.inl hr) hv site).mono fun _ hc _ => hc
  · refine (hev.returns_apply hf henv.blocked Way.blocked_ne_tidy (.inr rfl) hv.blocked site).mono
      fun _ _ hresolve => ?_
    rw [hr] at hresolve
    cases hresolve

theorem returns_call (hσ : σ.IsSound) (hev : IsEvaluator σ ev) {callee arg : Node} (tag : Tag)
    (hname : w = .tidy → callee.ident?.isSome = true) (hf : Code σ w Γ callee (.fn δ κ))
    (ha : Code σ w Γ arg δ) (henv : Supplies σ u Γ P env) (hm : Mode w u env) :
    Returns env (fun _ => evalCall ev tag callee arg) TooDeep (Code σ u P · κ) := by
  refine returns_evalCall tag
    (returns_evalType (hev.code hf henv.stored.resolved (.inl ⟨rfl, u.stored_ne_tidy⟩)))
    (hev.code ha henv hm) (fun t param body v hfun hv _ => ?_) fun f v hfun hv _ => ?_
  · exact hev.returns_unfold (isCallable_of_code hfun rfl fun _ hx => hx) henv hm hv _
  · have hcall {k : Node} (hk : Named σ u P (.fn δ κ) k) (t : Tag) : Code σ u P (.call t k v) κ :=
      .call t hk.2 hk.1 hv
    refine returns_keptCallee (fun t x hx hr => ?_) fun hother => ?_
    · subst hx
      exact (returns_ident hσ henv hm hf).mono fun k hk t => hcall hk t
    · -- Here code is not tidy: the callee is no name, or names are resolved.
      have hu : u ≠ .tidy := by
        rcases hm with ⟨-, hu⟩ | ⟨hr, rfl⟩
        · exact hu
        · intro htidy
          rcases hother with hnone | hr'
          · have hsome := hname htidy
            rw [hnone] at hsome
            cases hsome
          · rw [hr] at hr'
            cases hr'
      refine returns_residualCallee (fun _ t => ?_) fun t x found hx hlookup _ hdef t' => ?_
      · rw [Way.stored_of_ne_tidy hu] at hfun
        exact hcall ⟨hfun, fun htidy => absurd htidy hu⟩ t
      · subst hx
        have hx := use_of_lookup henv hf hlookup hdef
        exact hcall ⟨.value t hx, fun htidy => absurd htidy hu⟩ t'

theorem returns_callOuter (hσ : σ.IsSound) (hev : IsEvaluator σ ev) {callee arg : Node} (tag : Tag)
    (hf : Code σ .bare (σ.outer Γ) callee (.fn δ κ)) (ha : Code σ w Γ arg δ)
    (henv : Supplies σ u Γ P env) (hm : Mode w u env) :
    Returns env (fun _ => evalCall ev tag callee arg) TooDeep (Code σ u P · κ) := by
  have houter : Supplies σ .bare (σ.outer Γ) (σ.outer P) env := henv.outer Way.bare_ne_tidy
  refine returns_evalCall tag
    (returns_evalType (hev.code hf houter.resolved (.inl ⟨rfl, Way.bare_ne_tidy⟩)))
    (hev.code ha henv hm) (fun t param body v hfun hv _ => ?_) fun f v hfun hv _ => ?_
  · exact hev.returns_unfold (isCallable_of_code hfun rfl fun _ hx => ⟨hx.1.1, hx.2⟩) henv hm hv _
  · refine returns_keptCallee (fun t x hx hr => ?_) fun _ => ?_
    · subst hx
      exact (returns_ident hσ houter (.inr ⟨hr, rfl⟩) hf).mono fun k hk t => .callOuter t hk.1 hv
    · refine returns_residualCallee (fun _ t => .callOuter t hfun hv)
        fun t x found hx hlookup _ hdef t' => ?_
      subst hx
      exact .callOuter t' (.value t (use_of_lookup houter hf hlookup hdef)) hv

theorem returns_callDefined (hσ : σ.IsSound) (hev : IsEvaluator σ ev) {g : Name} {arg : Node}
    (tag gtag : Tag) (hg : σ.use g = some (.call δ κ)) (ha : Code σ w Γ arg δ)
    (henv : Supplies σ u Γ P env) (hm : Mode w u env) :
    Returns env (fun _ => evalCall ev tag (.ident gtag g) arg) TooDeep (Code σ u P · κ) := by
  refine returns_evalCall tag (returns_evalType (hev.callee gtag hg { henv.toOver with } rfl))
    (hev.code ha henv hm) (fun t param body v hfun hv _ => ?_) fun f v hfun hv _ => ?_
  · obtain ⟨d, hdef⟩ := hfun
    exact hev.returns_unfold (isCallable_of_defined hσ hg hdef).1 henv hm hv _
  · obtain ⟨d, hdef⟩ := hfun
    have hlookup := henv.toOver.lookup_defined hdef
    refine returns_keptCallee (fun t x hx hr => ?_) fun _ => ?_
    · cases hx
      refine returns_evalFound gtag hlookup (fun _ hput => ?_) fun _ t' t => .callDefined t t' hg hv
      simp [hr, Found.isTransparent] at hput
    · refine returns_residualCallee (fun hnone _ => ?_) fun t x found hx _ _ _ t' => ?_
      · have hfunc := (isCallable_of_defined (P := P) hσ hg hdef).2
        rw [hnone gtag g d f rfl hlookup] at hfunc
        cases hfunc
      · cases hx
        exact .callDefined t' gtag hg hv

/-! ### Functions -/

/-- A function literal sees captured names and its parameter. -/
theorem returns_func (hev : IsEvaluator σ ev) {param : Decl Node} {body : List Node} (tag : Tag)
    (hty : Denotes σ param.ty (σ.var param.name)) (hfree : σ.store.IsFree param.name)
    (hcap : ¬ σ.captured param.name)
    (hbody : Items σ w.inner false ((σ.outer Γ).insert param.name) body κ)
    (henv : Supplies σ u Γ P env) (hm : Mode w u env) :
    Returns env (fun _ => evalFunc ev tag param body) TooDeep
      fun f => f.isFunc = true ∧ Code σ u P f (.fn (σ.var param.name) κ) := by
  have hform := isFormOf_freshName env param.name
  have hinner := u.inner_ne_tidy
  have hm' : ∀ b : Binding, Mode w.inner u.inner ((env.enterCall (.func tag param body)).push b) :=
    fun _ => hm.imp (fun h => ⟨h.1, hinner⟩) fun h => ⟨h.1, congrArg Way.inner h.2⟩
  refine returns_evalFunc (B := fun _ => (Items σ u.inner false
    ((σ.outer P).insert ((env.freshName param.name).getD param.name)) · κ))
    (hev.evalType hty henv.toOver) (fun ty t hty' => ?_) fun t ty vs hty' hvs => ?_
  · rw [if_pos hty'.isType]
    have henv' := ((henv.outer hinner).called (.func tag param body)).push_param hinner hfree hcap
      hty' t hform
    exact (hev.returns_evalSeq hbody henv' (hm' _)).mono fun vs hvs => hvs.items (.inr rfl)
  · rw [← hform.var_eq] at hty' ⊢
    exact ⟨rfl, .func t (.type hty') (isFree_freshName henv.toOver hfree) (hform.not_captured hcap)
      hvs⟩

/-! ### Instances -/

/-- The value of a field of an instance has the type of the field. -/
theorem code_of_fieldValue? {id : TypeId} {body : List Node} {f : Name} {value : Node}
    (h : ∀ n ∈ body, Field σ w Γ id n) (hv : Node.fieldValue? body f = some value) :
    Code σ w Γ value (σ.field id f) := by
  obtain ⟨_, target, _, _, hmem, htarget⟩ := Node.exists_of_fieldValue? hv
  cases h _ hmem with
  | mk _ ftag hf hcode =>
    cases htarget
    exact hcode

theorem returns_dot (hev : IsEvaluator σ ev) {lhs : Node} {id : TypeId} {f : Name} (tag ftag : Tag)
    (hl : Code σ w Γ lhs (.record id)) (hf : σ.hasField id f) (henv : Supplies σ u Γ P env)
    (hm : Mode w u env) :
    Returns env (fun _ => evalDot ev tag lhs (.ident ftag f)) TooDeep (Code σ u P · (σ.field id f)) := by
  refine returns_evalDot tag (hev.code hl henv hm) (fun t template body t' name hinst hname => ?_)
    fun owner t howner _ => .dot t ftag howner hf
  cases hname
  cases hinst with
  | inst _ _ hbody hall =>
    obtain ⟨value, hvalue⟩ := Option.isSome_iff_exists.1 (hall f hf)
    exact .inl ⟨value, hvalue, code_of_fieldValue? hbody hvalue⟩

theorem returns_inst (hev : IsEvaluator σ ev) {id : TypeId} {template : Node} {body : List Node}
    (tag : Tag) (ht : Denotes σ template (.record id)) (hb : ∀ n ∈ body, Field σ w Γ id n)
    (hall : ∀ f, σ.hasField id f → (Node.fieldValue? body f).isSome = true)
    (henv : Supplies σ u Γ P env) (hm : Mode w u env) :
    Returns env (fun _ => step ev (.inst tag template body)) TooDeep (Code σ u P · (.record id)) := by
  have hfield : ∀ n ∈ body, Returns env (fun _ => evalField ev n) TooDeep fun v =>
      Field σ u P id v ∧ ∀ f, n.boundName? = some f → v.boundName? = some f := fun n hn => by
    cases hb n hn with
    | mk tag ftag hf h =>
      refine (hev.assign tag (.ident ftag _) _ _ h henv hm).mono ?_
      rintro v ⟨tag', value', link', rfl, h'⟩
      exact ⟨.mk tag' ftag hf h', fun _ hx => hx⟩
  refine (hev.evalType ht henv.toOver).bind fun ty hty => (Returns.mapM hfield).bind fun vs hvs =>
    (returns_tagAt _).bind fun t _ => returns_pure (.inst t (.type hty) (fun v hv => ?_) fun f hf => ?_)
  · obtain ⟨_, -, hfield', -⟩ := hvs.origin v hv
    exact hfield'
  · obtain ⟨value, hvalue⟩ := Option.isSome_iff_exists.1 (hall f hf)
    obtain ⟨_, target, _, _, hmem, htarget⟩ := Node.exists_of_fieldValue? hvalue
    obtain ⟨v, hv, hfield', hname⟩ := hvs.result _ hmem
    have hbound := hname f htarget
    cases hfield' with
    | mk _ _ _ _ => exact Node.isSome_fieldValue? hv hbound

/-! ### Matches -/

theorem returns_matchOn (hev : IsEvaluator σ ev) {scrutinee : Node} {cases : List (Case Node)}
    (tag : Tag) (hs : Code σ w Γ scrutinee τ)
    (hp : ∀ c ∈ cases, c.pattern.isWildcard = false → Code σ w Γ c.pattern τ)
    (hb : ∀ c ∈ cases, Items σ w false Γ c.body κ) (hw : ∃ c ∈ cases, c.pattern.isWildcard = true)
    (henv : Supplies σ u Γ P env) (hm : Mode w u env) :
    Returns env (fun _ => evalMatch ev tag scrutinee cases) TooDeep (Code σ u P · κ) := by
  refine returns_evalMatch tag (hev.code hs henv hm) (fun c hc hn => hev.code (hp c hc hn) henv hm)
    (fun c hc => hev.returns_value (hb c hc) henv hm c.span)
    (fun c hc => hev.returns_evalSeq (hb c hc) henv hm) (fun _ _ hnone => ?_)
    fun v cs t hv _ hcs => .matchOn t hv (pattern_of_kept hcs)
      (fun c hc => (body_of_kept hcs c hc).items (.inr rfl)) (wildcard_of_kept hcs hw)
  obtain ⟨c, hc, hwild⟩ := hw
  rw [hnone c hc] at hwild
  cases hwild

/-! ### Steps -/

/-- A step on code, by the evaluator of its parts. -/
theorem step_code (hσ : σ.IsSound) (hev : IsEvaluator σ ev) (h : Code σ w Γ n τ)
    (henv : Supplies σ u Γ P env) (hm : Mode w u env) :
    Returns env (fun _ => step ev n) TooDeep (Code σ u P · τ) := by
  cases h with
  | lit tag l => exact returns_pure (.lit tag l)
  | var tag hx => exact (returns_var henv hm tag hx).mono fun _ hk => hk.1
  | value tag hx => exact (returns_const hσ henv.toOver hm tag hx).mono fun _ hk => hk.1
  | list tag h =>
    exact (Returns.mapM_all fun n hn => hev.code (h n hn) henv hm).bind fun vs hvs =>
      (returns_tagAt _).bind fun t _ => returns_pure (.list t hvs)
  | binOp tag hop hl hr =>
    refine returns_evalBinOp tag hop (hev.code hl henv hm) (hev.code hr henv hm)
      (fun _ _ _ _ l t _ _ _ _ hfold => ?_) fun a b t ha hb _ => .binOp t hop ha hb
    rw [← Operator.builtin_of_fold hfold]
    exact .lit t l
  | dot tag ftag hl hf =>
    simp only [step, evalBinOp, if_true]
    exact hev.returns_dot tag ftag hl hf henv hm
  | ifElse tag hc ht he =>
    exact returns_evalIf tag (hev.code hc henv hm) (fun _ _ _ => hev.returns_value ht henv hm _)
      (fun _ _ _ => hev.returns_value he henv hm _) (hev.returns_evalSeq ht henv hm)
      (hev.returns_evalSeq he henv hm) fun v ts es t hv _ hts hes =>
        .ifElse t hv (hts.items (.inr rfl)) (hes.items (.inr rfl))
  | whileDo tag hloops hc hb =>
    exact (hev.code hc henv hm).bind fun v hv => (hev.returns_evalSeq hb henv hm).bind fun vs hvs =>
      (returns_tagAt _).bind fun t _ => returns_pure (.whileDo t hloops hv (hvs.items (.inr rfl)))
  | matchOn tag hs hp hb hw => exact hev.returns_matchOn tag hs hp hb hw henv hm
  | block tag h => exact hev.returns_value h henv hm _
  | inst tag ht hb hall => exact hev.returns_inst tag ht hb hall henv hm
  | member tag mtag ht hm' =>
    refine (hev.evalType ht henv.toOver).bind fun ty hty => ?_
    simp only [List.mapM_cons, List.mapM_nil, evalField, pure_bind]
    exact (returns_tagAt _).bind fun t _ => returns_pure (.member t mtag (.type hty) hm')
  | func tag hty hfree hcap hbody =>
    exact (hev.returns_func tag hty hfree hcap hbody henv hm).mono fun _ hf => hf.2
  | call tag hname hf ha => exact hev.returns_call hσ tag hname hf ha henv hm
  | callOuter tag hf ha => exact hev.returns_callOuter hσ tag hf ha henv hm
  | callDefined tag gtag hg ha => exact hev.returns_callDefined hσ tag gtag hg ha henv hm

/-- The steps of an evaluator of simply typed code are those of one. -/
theorem step (hσ : σ.IsSound) (hev : IsEvaluator σ ev) : IsEvaluator σ (Eval.step ev) where
  code := hev.step_code hσ
  assign tag target transparent link h henv hm :=
    (hev.code h henv hm).bind fun _ hv => returns_env.bind fun _ _ => (returns_tagAt _).bind
      fun _ _ => returns_pure ⟨_, _, _, rfl, hv⟩
  type := hev.step_type hσ
  callee tag hg henv hr := by
    obtain ⟨d, ftag, param, body, hdef, -⟩ := hσ.call hg
    refine returns_evalFound tag (henv.lookup_defined hdef) (fun _ _ => returns_pure ⟨d, hdef⟩)
      fun hkept => ?_
    simp [Found.isPlaceholder, Node.isPlaceholder, hr] at hkept

end IsEvaluator

/-- Code evaluates to code of its type, or the nesting is too deep. -/
theorem evaluates_eval (hσ : σ.IsSound) : ∀ d, IsEvaluator σ (eval d)
  | 0 => ⟨fun _ _ _ => returns_throw rfl, fun _ _ _ _ _ _ _ => returns_throw rfl,
      fun _ _ _ => returns_throw rfl, fun _ _ _ _ => returns_throw rfl⟩
  | d + 1 => (evaluates_eval hσ d).step hσ

/-! ## Programs -/

/-- A name that is new to the code is new to what the code becomes. -/
theorem Tight.not_residual {x : Name} (h : Tight Γ P env) (hx : ¬ Γ x) (hnew : ¬ IsMadeUp x) : ¬ P x :=
  fun hP => (h.residuals x hP).elim hx hnew

/-- The parameter of a function of the program. A captured one keeps its name. -/
theorem Supplies.push_binder {x : Name} {ty : Node} (h : Supplies σ u Γ P env) (ht : Tight Γ P env)
    (hfree : σ.store.IsFree x) (hcap : σ.captured x → ¬ Γ x) (hty : IsType σ ty (σ.var x)) (tag : Tag) :
    let e := env.push ⟨x, .selfType tag ty, false, env.freshName x⟩
    Supplies σ u (Γ.insert x) (P.insert ((env.freshName x).getD x)) e ∧
      Tight (Γ.insert x) (P.insert ((env.freshName x).getD x)) e := by
  intro e
  let b : Binding := ⟨x, .selfType tag ty, false, env.freshName x⟩
  have hform := isFormOf_freshName env x
  have hunknown : IsUnknown σ x b := ⟨tag, ty, rfl, hty⟩
  have ht' : Tight (Γ.insert x) (P.insert ((env.freshName x).getD x)) e := ht.push (b := b) hform
  refine ⟨h.push b hfree (fun _ => .inl) (fun y hy hQ => ?_) (fun hx => ⟨?_, hunknown⟩)
    ⟨hform, .inl ⟨hunknown, .inr rfl⟩⟩ fun _ => ht', ht'⟩
  · rcases hQ with hP | rfl
    · exact .inl hP
    · exact .inr (hform.resolve_right fun ⟨k, hk⟩ => σ.captured_suffixed x k (hk ▸ hy))
  · exact h.toOver.freshName_eq_none hfree (ht.find?_eq_none (hcap hx))

/-- An alias of the program keeps its name. -/
theorem Supplies.leads_binding {x : Name} {value : Node} (h : Supplies σ u Γ P env) (ht : Tight Γ P env)
    (hx : ¬ Γ x) (hfree : σ.store.IsFree x) (hcap : ¬ σ.captured x)
    (hvalue : Code σ u P value (σ.var x)) (tag xtag : Tag) (link : Option DefId) :
    Leads env (fun _ => bindLocal (.assign tag (.ident xtag x) value false link)) TooDeep
      fun v e => (∃ tag xtag value link, v = .assign tag (.ident xtag x) value false link ∧
          Code σ u P value (σ.var x)) ∧ Opened env e ∧ e.resolve = env.resolve ∧
        Supplies σ u (Γ.insert x) (P.insert x) e ∧ Tight (Γ.insert x) (P.insert x) e := by
  let b : Binding := ⟨x, value, false, none⟩
  have hfresh := h.toOver.freshName_eq_none hfree (ht.find?_eq_none hx)
  refine (leads_bindAlias tag xtag x value false link).mono ?_
  rintro v e ⟨⟨tag', xtag', link', rfl⟩, rfl⟩
  rw [hfresh, ht.transparent]
  have ht' : Tight (Γ.insert x) (P.insert x) (env.push b) := ht.push (b := b) (.inl rfl)
  refine ⟨⟨tag', xtag', value, link', rfl, hvalue⟩, .push _ .same, rfl, ?_, ht'⟩
  refine h.push b hfree (fun _ => .inl) (fun y hy hQ => hQ) (fun hx => absurd hx hcap)
    ⟨.inl rfl, .inr ⟨?_, fun _ _ => .inr rfl, fun _ => rfl⟩⟩ fun _ => ht'
  exact hvalue.stored.mono u.stored_ne_tidy fun _ => .inl

mutual

/-- A program evaluates to a program of its type, or the nesting is too deep. -/
theorem Program.evaluates (hσ : σ.IsSound) : ∀ {Γ : Scope} {n : Node} {τ : Ty}, Program σ w Γ n τ →
    ∀ {P : Scope} {env : Env}, Supplies σ u Γ P env → Tight Γ P env → Mode w u env → ∀ d,
    Returns env (fun _ => eval d n) TooDeep (Program σ u P · τ)
  | _, _, _, .code h, _, _, henv, _, hm, d => ((evaluates_eval hσ d).code h henv hm).mono fun _ => .code
  | _, _, _, .func .., _, _, _, _, _, 0 => returns_throw rfl
  | Γ, _, _, @Program.func _ _ _ param body κ tag hty hfree hcap hbody, P, env, henv, ht, hm, d + 1 => by
    have hform := isFormOf_freshName env param.name
    refine returns_evalFunc (B := fun _ => (Body σ u
      (P.insert ((env.freshName param.name).getD param.name)) · κ))
      ((evaluates_eval hσ d).evalType hty henv.toOver) (fun ty t hty' => ?_) fun t ty vs hty' hvs => ?_
    · rw [if_pos hty'.isType]
      obtain ⟨henv', ht'⟩ := henv.push_binder ht hfree hcap hty' t
      exact Leads.scope (hbody.evaluates hσ (henv'.called (.func tag param body)) { ht' with } hm d)
    · rw [← hform.var_eq] at hty' ⊢
      refine .func t (.type hty') (isFree_freshName henv.toOver hfree) (fun hcap' hP => ?_) hvs
      rcases hform with hname | ⟨k, hk⟩
      · dsimp only at hcap' hP
        rw [hname] at hcap' hP
        refine ht.not_residual (hcap hcap') (fun ⟨y, k, hk⟩ => ?_) hP
        exact σ.captured_suffixed y k (hk ▸ hcap')
      · exact σ.captured_suffixed _ k (hk ▸ hcap')

theorem Body.evaluates (hσ : σ.IsSound) : ∀ {Γ : Scope} {items : List Node} {τ : Ty},
    Body σ w Γ items τ → ∀ {P : Scope} {env : Env}, Supplies σ u Γ P env → Tight Γ P env → Mode w u env →
    ∀ d, Leads env (fun _ => items.mapM fun item => do bindLocal (← eval d item)) TooDeep
      fun vs e => Body σ u P vs τ ∧ Opened env e
  | _, _, _, .last h, P, env, henv, ht, hm, d =>
    FirstOrder.leads_last (h.evaluates hσ henv ht hm d) (fun _ hv => hv.isAlias) fun v hv => .last hv
  | _, _, _, .next h hrest, P, env, henv, ht, hm, d =>
    FirstOrder.leads_next ((evaluates_eval hσ d).code h henv hm) (fun _ hv => hv.isAlias) fun v hv =>
      (hrest.evaluates hσ henv ht hm d).mono fun vs e hvs => ⟨.next hv hvs.1, hvs.2⟩
  | Γ, _, _, @Body.bind _ _ _ x value link rest τ tag xtag hx hnew hfree hcap h hrest, P, env, henv, ht,
      hm, d => by
    have hitem := ((evaluates_eval hσ d).assign tag (.ident xtag x) false link h henv hm).leads
      fun v hv => by
        obtain ⟨tag', value', link', rfl, hvalue⟩ := hv
        exact henv.leads_binding ht hx hfree hcap hvalue tag' xtag link'
    refine leads_cons (hitem.mono ?_)
    rintro v e ⟨⟨tag', xtag', value', link', rfl, hvalue⟩, hopen, hmode, henv', ht'⟩
    have hm' : Mode w u e := hm.imp (hmode ▸ ·) (hmode ▸ ·)
    refine ⟨hopen, (hrest.evaluates hσ henv' ht' hm' d).mono ?_⟩
    rintro vs e' ⟨hvs, hopen'⟩
    exact ⟨.bind tag' xtag' (ht.not_residual hx hnew) hnew hfree hcap hvalue hvs, hopen'⟩

end

end Residual.SimplyTyped
