/-
Values of simply typed code. Where all names are known and there are no loops, code evaluates to a node
of which nothing is left to compute: numbers are folded, branches and cases are decided, fields are
taken out of instances, and calls are unfolded however deep the recursion is. So a program without
parameters that yields a number, a truth value or a string evaluates to a literal.
-/
import Residual.Proofs.SimplyTypedEval

namespace Residual

namespace Node

theorem allStatic_iff {items : List Node} : allStatic items = true ↔ ∀ n ∈ items, n.isStatic = true := by
  induction items with
  | nil => simp [allStatic]
  | cons n rest ih => rw [allStatic, Bool.and_eq_true, ih, List.forall_mem_cons]

/-- The assignments of a known body have known values. -/
theorem isStatic_of_mem {body : List Node} (h : allFieldsStatic body = true) {tag : Tag}
    {target value : Node} {transparent : Bool} {link : Option DefId}
    (hmem : assign tag target value transparent link ∈ body) : value.isStatic = true := by
  induction body with
  | nil => cases hmem
  | cons n rest ih =>
    rcases List.mem_cons.1 hmem with rfl | hmem
    · rw [allFieldsStatic, Bool.and_eq_true] at h
      exact h.1
    · refine ih ?_ hmem
      cases n with
      | assign =>
        rw [allFieldsStatic, Bool.and_eq_true] at h
        exact h.2
      | ident => exact h
      | _ => cases h

end Node

namespace SimplyTyped

open Pass Eval

variable {σ : Signature} {w : Way} {Γ : Scope} {n v : Node} {τ δ κ : Ty} {env : Env}

/-! ## Known nodes of a type -/

theorem Code.exists_lit {b : Builtin} (h : Code σ w Γ n (.builtin b)) (hs : n.isStatic = true)
    (hb : b ≠ .list) : ∃ tag l, n = .lit tag l ∧ l.builtin = b := by
  generalize hτ : Ty.builtin b = τ at h
  cases h with
  | lit tag l =>
    cases hτ
    exact ⟨tag, l, rfl, rfl⟩
  | list => exact absurd (Ty.builtin.inj hτ) hb
  | inst | member | func => cases hτ
  | _ => cases hs

theorem Code.exists_number (h : Code σ w Γ n (.builtin .number)) (hs : n.isStatic = true) :
    ∃ x, n.number? = some x := by
  obtain ⟨tag, l, rfl, hl⟩ := h.exists_lit hs (by decide)
  cases l with
  | number x => exact ⟨x, rfl⟩
  | _ => cases hl

theorem Code.exists_bool (h : Code σ w Γ n (.builtin .bool)) (hs : n.isStatic = true) :
    ∃ b, n.bool? = some b := by
  obtain ⟨tag, l, rfl, hl⟩ := h.exists_lit hs (by decide)
  cases l with
  | bool b => exact ⟨b, rfl⟩
  | _ => cases hl

theorem Code.exists_inst {id : TypeId} (h : Code σ w Γ n (.record id)) (hs : n.isStatic = true) :
    ∃ tag template body, n = .inst tag template body := by
  generalize hτ : Ty.record id = τ at h
  cases h with
  | inst tag => exact ⟨tag, _, _, rfl⟩
  | lit | list | member | func => cases hτ
  | _ => cases hs

theorem Code.isFunc_of_isStatic (h : Code σ w Γ n (.fn δ κ)) (hs : n.isStatic = true) :
    n.isFunc = true := by
  generalize hτ : Ty.fn δ κ = τ at h
  cases h with
  | func => rfl
  | lit | list | member | inst => cases hτ
  | _ => cases hs

/-! ## Environments -/

/-- All names in scope are known, and names are resolved. -/
structure Determines (σ : Signature) (Γ : Scope) (env : Env) : Prop
    extends Supplies σ .bare Γ .empty env where
  resolve : env.resolve = true
  known : ∀ x b, Γ x → env.locals.find? x = some b → b.value.isStatic = true

namespace Determines

theorem mode (h : Determines σ Γ env) : Mode w .bare env := .inl ⟨h.resolve, Way.bare_ne_tidy⟩

theorem resolved (h : Determines σ Γ env) : Determines σ Γ { env with resolve := true } where
  toSupplies := h.toSupplies.resolved
  resolve := rfl
  known := h.known

theorem known_push (h : Determines σ Γ env) {b : Binding} (hb : b.value.isStatic = true) (x : Name)
    (c : Binding) (hx : Γ.insert b.name x) (hc : (env.push b).locals.find? x = some c) :
    c.value.isStatic = true := by
  by_cases hname : x = b.name
  · subst hname
    rw [show (env.push b).locals.find? b.name = some b from env.locals.find?_push_self b] at hc
    cases hc
    exact hb
  · rw [show (env.push b).locals.find? x = env.locals.find? x from Locals.find?_push_of_ne hname] at hc
    exact h.known x c (hx.resolve_right hname) hc

theorem push_alias (h : Determines σ Γ env) {x : Name} (hfree : σ.store.IsFree x)
    (hcap : ¬ σ.captured x) (hv : Code σ .bare .empty v (σ.var x)) (hs : v.isStatic = true) (t : Bool) :
    Determines σ (Γ.insert x) (env.push ⟨x, v, t, env.freshName x⟩) where
  toSupplies := h.toSupplies.push_alias Way.bare_ne_tidy h.resolve hfree hcap hv t
  resolve := h.resolve
  known := h.known_push (b := ⟨x, v, t, env.freshName x⟩) hs

theorem restrict (h : Determines σ Γ env) {Δ : Scope} (hΔ : ∀ x, Δ x → Γ x) : Determines σ Δ env where
  toSupplies := h.toSupplies.restrict Way.bare_ne_tidy hΔ
  resolve := h.resolve
  known x b hx := h.known x b (hΔ x hx)

/-- The environment for the body of a function that is called: residual code has no names. -/
theorem apply (h : Determines σ Γ env) (f : Node) {Δ : Scope} {x : Name} (hfree : σ.store.IsFree x)
    (hcap : ¬ σ.captured x) (hΔ : ∀ y, Δ y → (σ.outer Scope.empty).insert x y)
    (hv : Code σ .bare .empty v (σ.var x)) (hs : v.isStatic = true) :
    Determines σ Δ ({ env.enterCall f with transparent := true }.push ⟨x, v, true, none⟩) where
  toSupplies := by
    have hcalled := ((h.toSupplies.residual Way.bare_ne_tidy).called f).transparent Way.bare_ne_tidy true
    exact (hcalled.push_arg Way.bare_ne_tidy hfree hcap hv).restrict Way.bare_ne_tidy hΔ
  resolve := h.resolve
  known y b hy hb := by
    obtain rfl : y = x := (hΔ y hy).resolve_left fun hempty => hempty.1
    rw [show Locals.find? _ y = some ⟨y, v, true, none⟩ from Locals.find?_push_self _ _] at hb
    cases hb
    exact hs

end Determines

/-! ## Evaluators -/

/-- What is known of the evaluator of the parts. -/
structure Computes (σ : Signature) (ev : Node → Pass Node) : Prop extends IsEvaluator σ ev where
  value : ∀ {w : Way} {Γ : Scope} {n : Node} {τ : Ty} {env : Env}, Code σ w Γ n τ →
    Determines σ Γ env → Returns env (fun _ => ev n) TooDeep (·.isStatic = true)
  assigned : ∀ {w : Way} {Γ : Scope} {n : Node} {τ : Ty} {env : Env} (tag : Tag) (target : Node)
    (transparent : Bool) (link : Option DefId), Code σ w Γ n τ → Determines σ Γ env →
    Returns env (fun _ => ev (.assign tag target n transparent link)) TooDeep
      fun v => ∀ tag target value transparent link,
        v = .assign tag target value transparent link → value.isStatic = true

/-- The definitions that are values are known ones. -/
def Signature.IsStatic (σ : Signature) : Prop :=
  ∀ x τ d n, σ.use x = some (.value τ) → σ.store.lookup x = some (d, n) → n.isStatic = true

namespace Computes

variable {ev : Node → Pass Node}

/-- Code evaluates to a known node of its type. -/
theorem both (hev : Computes σ ev) (h : Code σ w Γ n τ) (henv : Determines σ Γ env) :
    Returns env (fun _ => ev n) TooDeep fun v => Code σ .bare .empty v τ ∧ v.isStatic = true :=
  (hev.code h henv.toSupplies henv.mode).and (hev.value h henv)

/-! ### Sequences -/

theorem leads_items (hev : Computes σ ev) {a : Bool} {items : List Node} :
    ∀ {Γ : Scope} {env : Env}, Items σ w a Γ items τ → Determines σ Γ env →
    Leads env (fun _ => items.mapM fun item => do bindLocal (← ev item)) TooDeep
      fun vs e => (∃ v, vs.getLast? = some v ∧ v.isStatic = true) ∧ Opened env e := by
  induction items with
  | nil => exact fun h => nomatch h
  | cons n rest ih =>
    intro Γ env h henv
    cases h with
    | last hn =>
      exact FirstOrder.leads_last (hev.both hn henv) (fun _ hv => hv.1.isAlias)
        fun v hv => ⟨v, rfl, hv.2⟩
    | next hn hrest =>
      exact FirstOrder.leads_next (hev.both hn henv) (fun _ hv => hv.1.isAlias) fun v hv =>
        (ih hrest henv).mono fun vs e ⟨hw, hopen⟩ => ⟨exists_last_cons hw, hopen⟩
    | bind tag xtag hx hfree hcap hvalue hrest =>
      rename_i x value transparent link
      have hitem : Leads env (fun _ => do
          bindLocal (← ev (.assign tag (.ident xtag x) value transparent link))) TooDeep
          fun _ e => Determines σ (Γ.insert x) e ∧ Opened env e := by
        refine ((hev.assign tag (.ident xtag x) transparent link hvalue henv.toSupplies henv.mode).and
          (hev.assigned tag (.ident xtag x) transparent link hvalue henv)).leads ?_
        rintro v ⟨⟨tag', value', link', rfl, hcode⟩, hs⟩
        refine (leads_bindAlias tag' xtag x value' transparent link').mono ?_
        rintro v e ⟨-, rfl⟩
        exact ⟨henv.push_alias hfree hcap hcode (hs _ _ _ _ _ rfl) _, .push _ .same⟩
      refine leads_cons (hitem.mono ?_)
      rintro v e ⟨henv', hopen⟩
      exact ⟨hopen, (ih hrest henv').mono fun vs e' ⟨hw, hopen'⟩ => ⟨exists_last_cons hw, hopen'⟩⟩

theorem returns_value (hev : Computes σ ev) {a : Bool} {items : List Node} (h : Items σ w a Γ items τ)
    (henv : Determines σ Γ env) (site : Span) :
    Returns env (fun _ => Eval.evalSeq ev items >>= (seqValue · site)) TooDeep (·.isStatic = true) := by
  refine Returns.bind (Leads.scope (hev.leads_items h henv)) fun vs hvs =>
    returns_seqLast (fun _ => hvs) fun hkept => ?_
  rw [henv.resolve] at hkept
  cases hkept

/-! ### Calls -/

open IsEvaluator in
/-- A known function that is called with a known argument is unfolded. -/
theorem returns_call (hev : Computes σ ev) {callee arg : Node} {Q : Node → Prop} (tag : Tag)
    (hcallee : Returns env (fun _ => evalType ev callee) TooDeep Q)
    (hQ : ∀ f, Q f → f.isFunc = true ∧ IsCallable σ .empty f δ κ) (ha : Code σ w Γ arg δ)
    (henv : Determines σ Γ env) :
    Returns env (fun _ => evalCall ev tag callee arg) TooDeep (·.isStatic = true) := by
  have hgoes {f v : Node} (hf : Q f) (hv : v.isStatic = true) : ¬ Stays env f v := by
    rintro (hfunc | ⟨-, hr | hs⟩)
    · rw [(hQ f hf).1] at hfunc
      cases hfunc
    · rw [henv.resolve] at hr
      cases hr
    · rw [hv] at hs
      cases hs
  refine returns_evalCall tag hcallee (hev.both ha henv) (fun t param body v hf hv _ => ?_)
    fun f v hf hv hstays => absurd (hstays henv.resolve) (hgoes hf hv.2)
  cases (hQ _ hf).2 with
  | mk _ hfree hcap hΓ hbody =>
    exact Eval.returns_apply ((hev.returns_value hbody (henv.apply _ hfree hcap hΓ hv.1 hv.2) _).mono
      fun _ hc _ => hc)

/-! ### Steps -/

theorem returns_var (henv : Determines σ Γ env) {x : Name} (tag : Tag) (hx : Γ x) :
    Returns env (fun _ => evalIdent tag x) TooDeep (·.isStatic = true) := by
  obtain ⟨b, hfind, hb⟩ := henv.vars x hx
  refine returns_evalFound tag (Env.lookup_bound hfind) (fun _ _ => returns_pure ?_) fun hkept => ?_
  · exact henv.known x b hx hfind
  · rcases hb.value with ⟨-, hP⟩ | hknown
    · exact hP.elim
    · simp [Found.isPlaceholder, hknown.value.isPlaceholder, henv.resolve] at hkept

theorem returns_const (hσ : σ.IsSound) (hknown : σ.IsStatic) (henv : Determines σ Γ env) {x : Name}
    (tag : Tag) (hx : σ.use x = some (.value τ)) :
    Returns env (fun _ => evalIdent tag x) TooDeep (·.isStatic = true) := by
  obtain ⟨d, v, hdef, hv⟩ := hσ.value hx
  refine returns_evalFound tag (henv.toOver.lookup_defined hdef)
    (fun _ _ => returns_pure (hknown x τ d v hx hdef)) fun hkept => ?_
  simp [Found.isPlaceholder, hv.isPlaceholder, henv.resolve] at hkept

/-- Two numbers are folded. -/
theorem returns_binOp (hev : Computes σ ev) {op : Operator} {lhs rhs : Node} (tag : Tag)
    (hop : op ≠ .dot) (hl : Code σ w Γ lhs (.builtin .number))
    (hr : Code σ w Γ rhs (.builtin .number)) (henv : Determines σ Γ env) :
    Returns env (fun _ => evalBinOp ev tag op lhs rhs) TooDeep (·.isStatic = true) := by
  refine returns_evalBinOp tag hop (hev.both hl henv) (hev.both hr henv)
    (fun _ _ _ _ _ _ _ _ _ _ _ => rfl) fun a b t ha hb hnone => ?_
  obtain ⟨x, hx⟩ := ha.1.exists_number ha.2
  obtain ⟨y, hy⟩ := hb.1.exists_number hb.2
  obtain ⟨l, hl⟩ := Operator.exists_fold hop x y
  rw [hnone x y hx hy] at hl
  cases hl

/-- A known instance of a record has all its fields, and they are known. -/
theorem returns_dot (hev : Computes σ ev) {id : TypeId} {lhs : Node} {f : Name} (tag ftag : Tag)
    (hl : Code σ w Γ lhs (.record id)) (hf : σ.hasField id f) (henv : Determines σ Γ env) :
    Returns env (fun _ => evalDot ev tag lhs (.ident ftag f)) TooDeep (·.isStatic = true) := by
  refine returns_evalDot tag (hev.both hl henv) (fun t template body t' name hinst hname => ?_)
    fun owner t howner hother => ?_
  · cases hname
    cases hinst.1 with
    | inst _ _ _ hall =>
      obtain ⟨value, hvalue⟩ := Option.isSome_iff_exists.1 (hall _ hf)
      obtain ⟨_, _, _, _, hmem, -⟩ := Node.exists_of_fieldValue? hvalue
      have hs := hinst.2
      rw [Node.isStatic, Bool.and_eq_true] at hs
      exact .inl ⟨value, hvalue, Node.isStatic_of_mem hs.2 hmem⟩
  · obtain ⟨t', template, body, rfl⟩ := howner.1.exists_inst howner.2
    exact absurd rfl (hother t' template body ftag _ rfl)

theorem returns_inst (hev : Computes σ ev) {id : TypeId} {template : Node} {body : List Node}
    (tag : Tag) (ht : Denotes σ template (.record id)) (hb : ∀ n ∈ body, Field σ w Γ id n)
    (henv : Determines σ Γ env) :
    Returns env (fun _ => Eval.step ev (.inst tag template body)) TooDeep (·.isStatic = true) := by
  have hfield : ∀ n ∈ body, Returns env (fun _ => evalField ev n) TooDeep
      fun v => Node.allFieldsStatic [v] = true := fun n hn => by
    cases hb n hn with
    | mk tag ftag hf h =>
      refine ((hev.assign tag (.ident ftag _) _ _ h henv.toSupplies henv.mode).and
        (hev.assigned tag (.ident ftag _) _ _ h henv)).mono ?_
      rintro v ⟨⟨tag', value', link', rfl, -⟩, hs⟩
      simp [Node.allFieldsStatic, hs _ _ _ _ _ rfl]
  refine (hev.evalType ht henv.toOver).bind fun ty hty => (Returns.mapM_all hfield).bind fun vs hvs =>
    (returns_tagAt _).bind fun t _ => returns_pure ?_
  rw [Node.isStatic, hty.isType, Bool.true_and]
  clear hfield
  induction vs with
  | nil => rfl
  | cons v rest ih =>
    obtain ⟨hv, hrest⟩ := List.forall_mem_cons.1 hvs
    cases v with
    | assign => simpa [Node.allFieldsStatic, ih hrest] using hv
    | ident => exact ih hrest
    | _ => cases hv

theorem step_value (hσ : σ.IsSound) (hknown : σ.IsStatic) (hloops : ¬ σ.loops) (hev : Computes σ ev)
    (h : Code σ w Γ n τ) (henv : Determines σ Γ env) :
    Returns env (fun _ => Eval.step ev n) TooDeep (·.isStatic = true) := by
  have hfun {δ κ : Ty} (f : Node) (hf : Code σ .bare .empty f (.fn δ κ) ∧ f.isStatic = true) :
      f.isFunc = true ∧ IsEvaluator.IsCallable σ .empty f δ κ :=
    have hfunc := hf.1.isFunc_of_isStatic hf.2
    ⟨hfunc, IsEvaluator.isCallable_of_code hf.1 hfunc fun _ hx => hx⟩
  cases h with
  | lit => exact returns_pure rfl
  | var tag hx => exact returns_var henv tag hx
  | value tag hx => exact returns_const hσ hknown henv tag hx
  | list tag h =>
    exact (Returns.mapM_all fun n hn => hev.value (h n hn) henv).bind fun vs hvs =>
      (returns_tagAt _).bind fun t _ => returns_pure (Node.allStatic_iff.2 hvs)
  | binOp tag hop hl hr => exact hev.returns_binOp tag hop hl hr henv
  | dot tag ftag hl hf =>
    simp only [Eval.step, evalBinOp, if_true]
    exact hev.returns_dot tag ftag hl hf henv
  | ifElse tag hc ht he =>
    refine returns_evalIf (T := fun _ => True) (E := fun _ => True) tag (hev.both hc henv)
      (fun _ _ _ => hev.returns_value ht henv _) (fun _ _ _ => hev.returns_value he henv _)
      ((hev.returns_evalSeq ht henv.toSupplies henv.mode).mono fun _ _ => trivial)
      ((hev.returns_evalSeq he henv.toSupplies henv.mode).mono fun _ _ => trivial)
      fun v ts es t hv hnone _ _ => ?_
    obtain ⟨b, hb⟩ := hv.1.exists_bool hv.2
    rw [hnone] at hb
    cases hb
  | whileDo _ h => exact absurd h hloops
  | matchOn tag hs hp hb hw =>
    refine returns_evalMatch tag (hev.value hs henv) (fun c hc hn => hev.value (hp c hc hn) henv)
      (fun c hc => hev.returns_value (hb c hc) henv c.span)
      (fun c hc => hev.returns_evalSeq (hb c hc) henv.toSupplies henv.mode) (fun _ _ hnone => ?_)
      fun v cs t hv hs _ => ?_
    · obtain ⟨c, hc, hwild⟩ := hw
      rw [hnone c hc] at hwild
      cases hwild
    · rw [hv] at hs
      cases hs
  | block tag h => exact hev.returns_value h henv _
  | inst tag ht hb => exact hev.returns_inst tag ht hb henv
  | member tag mtag ht =>
    refine (hev.evalType ht henv.toOver).bind fun ty hty => ?_
    simp only [List.mapM_cons, List.mapM_nil, evalField, pure_bind]
    refine (returns_tagAt _).bind fun t _ => returns_pure ?_
    rw [Node.isStatic, hty.isType]
    rfl
  | func tag hty hfree hcap hbody =>
    refine (hev.returns_func tag hty hfree hcap hbody henv.toSupplies henv.mode).mono ?_
    rintro f ⟨hf, -⟩
    obtain ⟨_, _, _, rfl⟩ := exists_of_isFunc hf
    rfl
  | call tag hname hf ha =>
    exact hev.returns_call tag (returns_evalType (hev.both hf henv.resolved)) hfun ha henv
  | callOuter tag hf ha =>
    exact hev.returns_call tag (returns_evalType (hev.both hf (henv.resolved.restrict fun _ hx => hx.1)))
      hfun ha henv
  | callDefined tag gtag hg ha =>
    refine hev.returns_call (κ := τ) tag (returns_evalType (hev.callee gtag hg { henv.toOver with } rfl))
      (fun f hf => ?_) ha henv
    obtain ⟨d, hdef⟩ := hf
    obtain ⟨hcallable, hfunc⟩ := IsEvaluator.isCallable_of_defined hσ hg hdef
    exact ⟨hfunc, hcallable⟩

theorem step (hσ : σ.IsSound) (hknown : σ.IsStatic) (hloops : ¬ σ.loops) (hev : Computes σ ev) :
    Computes σ (Eval.step ev) where
  toIsEvaluator := hev.toIsEvaluator.step hσ
  value := hev.step_value hσ hknown hloops
  assigned tag target transparent link h henv :=
    (hev.value h henv).bind fun _ hv => returns_env.bind fun _ _ => (returns_tagAt _).bind
      fun _ _ => returns_pure fun _ _ _ _ _ heq => by
        cases heq
        exact hv

end Computes

theorem computes_eval (hσ : σ.IsSound) (hknown : σ.IsStatic) (hloops : ¬ σ.loops) :
    ∀ d, Computes σ (eval d)
  | 0 => ⟨evaluates_eval hσ 0, fun _ _ => returns_throw rfl, fun _ _ _ _ _ _ => returns_throw rfl⟩
  | d + 1 => (computes_eval hσ hknown hloops d).step hσ hknown hloops

end SimplyTyped

end Residual
