/-
Checking simply typed programs. A program passes the checker with its type, unless the type is not
settled: a recursive definition has met itself, or the nesting is too deep. The checker sees a
placeholder for each name in scope. It evaluates callees and calls where names are resolved, and then
checks what comes out, which is code again.
-/
import Residual.Proofs.CheckRules
import Residual.Proofs.SimplyTypedEval

namespace Residual.SimplyTyped

open Pass Check

variable {σ : Signature} {w u : Way} {Γ Δ : Scope} {n : Node} {τ δ κ : Ty} {env : Env}

/-! ## Environments -/

/-- An environment in which code over the names is checked. Where code is tidy, no other name is
bound. -/
structure Views (σ : Signature) (w : Way) (Γ : Scope) (env : Env) : Prop extends env.Over σ.store where
  vars : ∀ x, Γ x → ∃ b, env.locals.find? x = some b ∧ b.rename = none ∧ IsUnknown σ x b
  transparent : env.transparent = false
  tight : w = .tidy → ∀ b ∈ env.locals.bindings, Γ b.name

namespace Views

/-- What is checked can be evaluated, and stays code over the same names. -/
theorem supplies (h : Views σ w Γ env) (hu : u = .tidy → w = .tidy) : Supplies σ u Γ Γ env where
  toOver := h.toOver
  vars x hx := by
    obtain ⟨b, hfind, hrename, hb⟩ := h.vars x hx
    exact ⟨b, hfind, hb.serves hrename hx⟩
  captured x _ hin := ⟨hin.elim id id, h.vars x (hin.elim id id)⟩
  tight htidy := ⟨h.tight (hu htidy), fun _ => .inl, h.transparent⟩

theorem called (h : Views σ w Γ env) (n : Node) : Views σ w Γ (env.enterCall n) := { h with }

theorem resolve (h : Views σ w Γ env) (r : Bool) : Views σ w Γ { env with resolve := r } := { h with }

/-- Definitions are checked where no local binding is seen. -/
theorem globals (h : Views σ w Γ env) (u : Way) : Views σ u .empty { env with locals := .empty } where
  store_eq := h.store_eq
  names _ hb := nomatch hb
  vars _ hx := hx.elim
  transparent := h.transparent
  tight _ _ hb := nomatch hb

theorem restrict (h : Views σ w Γ env) (hΔ : ∀ x, Δ x → Γ x) : Views σ .bare Δ env where
  toOver := h.toOver
  vars x hx := h.vars x (hΔ x hx)
  transparent := h.transparent
  tight htidy := absurd htidy Way.bare_ne_tidy

theorem push {x : Name} {ty : Node} (h : Views σ w Γ env) (hfree : σ.store.IsFree x)
    (hty : IsType σ ty (σ.var x)) (tag : Tag) (transparent : Bool) :
    Views σ w (Γ.insert x) (env.push ⟨x, .selfType tag ty, transparent, none⟩) where
  toOver := h.toOver.push hfree
  vars y hy := by
    by_cases hname : y = x
    · subst hname
      exact ⟨_, env.locals.find?_push_self _, rfl, tag, ty, rfl, hty⟩
    · obtain ⟨b, hfind, hb⟩ := h.vars y (hy.resolve_right hname)
      exact ⟨b, (Locals.find?_push_of_ne hname).trans hfind, hb⟩
  transparent := h.transparent
  tight hw b hb := by
    rcases List.mem_cons.1 hb with rfl | hb
    · exact .inr rfl
    · exact .inl (h.tight hw b hb)

/-- A name that is not in scope is not bound where code is tidy. -/
theorem lookup_eq_none {x : Name} (h : Views σ .tidy Γ env) (hfree : σ.store.IsFree x) (hx : ¬ Γ x) :
    env.lookup x = none := by
  refine h.toOver.lookup_free hfree ?_
  rw [Locals.find?_eq, List.find?_eq_none]
  intro b hb hname
  exact hx (beq_iff_eq.1 hname ▸ h.tight rfl b hb)

end Views

/-! ## Checkers -/

/-- The type is not settled: a definition has met itself, in all arms of a branch if need be, or the
nesting is too deep. -/
def Unsettled (f : Fault) : Prop :=
  f = .exhausted ∨ f = .void ∨ ∃ site, f = .error (.cannotInfer site)

theorem unsettled_void : Unsettled .void := .inr (.inl rfl)

theorem unsettled_cannotInfer (site : Span) : Unsettled (.error (.cannotInfer site)) :=
  .inr (.inr ⟨site, rfl⟩)

theorem unsettled_of_tooDeep {f : Fault} (h : TooDeep f) : Unsettled f := .inl h

/-- What is known of the checker of the parts. -/
structure IsChecker (σ : Signature) (ck : Node → Pass Node) : Prop where
  restores : ∀ n, Restores (ck n)
  code : ∀ {w : Way} {Γ : Scope} {n : Node} {τ : Ty} {env : Env}, Code σ w Γ n τ → w ≠ .blocked →
    Views σ w Γ env → Returns env (fun _ => ck n) Unsettled (IsType σ · τ)
  assign : ∀ {w : Way} {Γ : Scope} {x : Name} {value : Node} {τ : Ty} {env : Env} (tag xtag : Tag)
    (transparent : Bool) (link : Option DefId), Code σ w Γ value τ → w ≠ .blocked → Views σ w Γ env →
    env.lookup x = none →
    Returns env (fun _ => ck (.assign tag (.ident xtag x) value transparent link)) Unsettled
      (IsType σ · τ)
  placeholder : ∀ {ty : Node} {τ : Ty} {env : Env} (tag : Tag), IsType σ ty τ →
    Returns env (fun _ => ck (.selfType tag ty)) Unsettled (IsType σ · τ)
  type : ∀ {n : Node} {τ : Ty} {env : Env}, Denotes σ n τ → env.Over σ.store →
    Returns env (fun _ => ck n) Unsettled fun _ => True
  func : ∀ {w : Way} {a : Bool} {Γ : Scope} {param : Decl Node} {body : List Node} {κ : Ty} {env : Env}
    (tag : Tag), Denotes σ param.ty (σ.var param.name) → σ.store.IsFree param.name →
    Items σ w a (Γ.insert param.name) body κ → w ≠ .blocked → Views σ w Γ env →
    Returns env (fun _ => ck (.func tag param body)) Unsettled
      (IsType σ · (.fn (σ.var param.name) κ))
  callee : ∀ {w : Way} {Γ : Scope} {g : Name} {δ κ : Ty} {env : Env} (tag : Tag),
    σ.use g = some (.call δ κ) → Views σ w Γ env →
    Returns env (fun _ => ck (.ident tag g)) Unsettled (IsType σ · (.fn δ κ))

namespace IsChecker

variable {ev ck : Node → Pass Node}

theorem fits_of_isType {b : Builtin} {t : Node} (h : IsType σ t (.builtin b)) : fits b t = true :=
  IsType.compatible (.builtin _ b) h

/-! ### Type expressions -/

theorem returns_denoted (hev : IsEvaluator σ ev) (hck : IsChecker σ ck) (h : Denotes σ n τ)
    (henv : env.Over σ.store) : Returns env (fun _ => denoted ev ck n) Unsettled (IsType σ · τ) := by
  have henv' : ({ env with resolve := true } : Env).Over σ.store := { henv with }
  exact Check.returns_denoted (hck.type h henv)
    ((hev.type h henv' rfl).faults fun _ => unsettled_of_tooDeep)

theorem returns_typeExpr (hev : IsEvaluator σ ev) (hck : IsChecker σ ck) (h : Denotes σ n τ)
    (henv : env.Over σ.store) :
    Returns env (fun _ => Check.typeExpr ev ck n) Unsettled (IsType σ · τ) :=
  Check.returns_typeExpr (hck.returns_denoted hev h henv) fun _ => IsType.isType

/-- A step on a type expression. -/
theorem step_type (hσ : σ.IsSound) (hev : IsEvaluator σ ev) (hre : ∀ n, Restores (ev n))
    (hck : IsChecker σ ck) (h : Denotes σ n τ) (henv : env.Over σ.store) :
    Returns env (fun _ => step ev ck n) Unsettled fun _ => True := by
  have htype : Returns env (fun _ => Pass.builtin .type) Unsettled fun _ => True :=
    returns_builtin .type fun _ => trivial
  have hfn {tag : Tag} {id : TypeId} {dom cod : Node} {δ κ : Ty} (hdom : Denotes σ dom δ)
      (hcod : Denotes σ cod κ) :
      Returns env (fun _ => step ev ck (.fnType tag id dom cod)) Unsettled fun _ => True :=
    (hck.returns_typeExpr hev hdom henv).bind fun _ _ =>
      (hck.returns_typeExpr hev hcod henv).bind fun _ _ => htype
  cases h with
  | type h =>
    cases h with
    | builtin => exact htype
    | enum => exact htype
    | record tag hfields =>
      exact (returns_checkFieldTypes (fun d hd =>
        (hck.returns_typeExpr hev (hfields d hd) henv).mono fun _ _ => trivial) (fun _ => hre)
        fun _ => hck.restores).bind fun _ _ => htype
    | fn tag id hdom hcod => exact hfn (.type hdom) (.type hcod)
  | builtin tag hb =>
    exact returns_checkBuiltin tag (henv.lookup_builtin hb) fun t =>
      hck.type (.type (.builtin t _)) ⟨henv.store_eq, fun _ hb => nomatch hb⟩
  | defined tag hx =>
    obtain ⟨d, ty, hdef, hty⟩ := hσ.type hx
    refine returns_checkDefinition tag (henv.lookup_defined hdef) (fun hfunc => ?_)
      (fun _ _ => unsettled_void) fun _ _ =>
        hck.type (.type hty) ⟨henv.store_eq, fun _ hb => nomatch hb⟩
    rw [hty.isFunc] at hfunc
    cases hfunc
  | fn tag id hdom hcod => exact hfn hdom hcod

/-! ### Sequences -/

/-- A sequence passes with the type of its last node. -/
theorem checksSeq (hck : IsChecker σ ck) (hw : w ≠ .blocked) {a : Bool} {items : List Node} :
    ∀ {Γ : Scope} {env : Env}, Items σ w a Γ items τ → Views σ w Γ env →
    ChecksSeq (fun _ => ck) env items Unsettled (IsType σ · τ) := by
  induction items with
  | nil => exact fun h => nomatch h
  | cons n rest ih =>
    intro Γ env h henv
    cases h with
    | last hn => exact checksSeq_single (hck.code hn hw henv) hn.boundName?
    | next hn hrest =>
      refine .cons hrest.ne_nil (Leads.mono (returns_checkItem (hck.code hn hw henv) hn.boundName?) ?_)
      rintro _ e ⟨-, rfl⟩
      exact ⟨.same, ih hrest henv⟩
    | bind tag xtag hx hfree hcap hvalue hrest =>
      have htidy : w = .tidy := by
        cases w with
        | bare => exact hx.elim
        | blocked => exact absurd rfl hw
        | tidy => rfl
      subst htidy
      refine .cons hrest.ne_nil ((leads_checkItem_alias (hck.assign tag xtag _ _ hvalue hw henv
        (henv.lookup_eq_none hfree hx.1))).mono ?_)
      rintro _ _ ⟨ty, t, hty, rfl⟩
      exact ⟨.push _ .same, ih hrest (henv.push hfree hty t false)⟩

theorem returns_checkSeq (hck : IsChecker σ ck) (hw : w ≠ .blocked) {a : Bool} {items : List Node}
    (h : Items σ w a Γ items τ) (henv : Views σ w Γ env) (site : Span) :
    Returns env (fun _ => Check.checkSeq ck items site) Unsettled (IsType σ · τ) :=
  (hck.checksSeq hw h henv).returns h.ne_nil site

/-! ### Functions and calls -/

theorem step_func (hev : IsEvaluator σ ev) (hck : IsChecker σ ck) {a : Bool} {param : Decl Node}
    {body : List Node} (tag : Tag) (hty : Denotes σ param.ty (σ.var param.name))
    (hfree : σ.store.IsFree param.name) (hbody : Items σ w a (Γ.insert param.name) body κ)
    (hw : w ≠ .blocked) (henv : Views σ w Γ env) :
    Returns env (fun _ => checkFunc ev ck tag param body) Unsettled
      (IsType σ · (.fn (σ.var param.name) κ)) := by
  refine returns_checkFunc (B := fun _ => (IsType σ · κ)) (fun _ => unsettled_void)
    (Check.returns_declaredType (hck.returns_denoted hev hty henv.toOver) fun _ => IsType.isType)
    (fun ty t hty' _ => ?_) fun t id ty r hty' hr => .fn t id hty' hr
  exact hck.returns_checkSeq hw hbody
    (((henv.called (.func tag param body)).push hfree hty' t false).resolve false) tag.span

/-- A call passes if its callee has a function type and, should the callee be known, what the call
becomes is code without aliases. -/
theorem returns_call (hck : IsChecker σ ck) {callee arg : Node} (tag : Tag) {R : Node → Prop}
    (hw : w ≠ .blocked) (henv : Views σ w Γ env)
    (hcallee : Returns env (fun _ => ck callee) Unsettled (IsType σ · (.fn δ κ)))
    (ha : Code σ w Γ arg δ)
    (hfunction : Returns { env with resolve := true } (fun _ => ev callee) TooDeep R)
    (hR : ∀ t param body, R (.func t param body) → δ = σ.var param.name ∧ σ.store.IsFree param.name)
    (hresult : Returns { env with resolve := true } (fun _ => ev (.call tag callee arg)) TooDeep
      (Code σ .bare Γ · κ)) :
    Returns env (fun _ => checkCall ev ck tag callee arg) Unsettled (IsType σ · κ) := by
  refine returns_checkCall tag (S := fun dom cod => IsType σ dom δ ∧ IsType σ cod κ)
    (hcallee.mono fun t ht => ?_) (hck.code ha hw henv) (fun dom cod t hS ht => hS.1.compatible ht)
    (hfunction.faults fun _ => unsettled_of_tooDeep) (fun dom cod t param body hS hf => ?_)
    fun _ _ hS => hS.2
  · obtain ⟨t', id, dom, cod, rfl, hdom, hcod⟩ := ht.exists_fnType
    exact ⟨t', id, dom, cod, rfl, hdom, hcod⟩
  · obtain ⟨rfl, hfree⟩ := hR t param body hf
    refine ⟨_, hresult.faults fun _ => unsettled_of_tooDeep, fun result t' hcode => ?_⟩
    refine hck.code hcode Way.bare_ne_blocked
      (Views.restrict (w := w) (Γ := Γ.insert param.name) ?_ fun _ => .inl)
    exact (henv.called (.func t param body)).push hfree hS.1 t' true

/-- A step on a definition that is there to be called. -/
theorem step_callee (hσ : σ.IsSound) (hck : IsChecker σ ck) {g : Name} (tag : Tag)
    (hg : σ.use g = some (.call δ κ)) (henv : Views σ w Γ env) :
    Returns env (fun _ => checkIdent ck tag g) Unsettled (IsType σ · (.fn δ κ)) := by
  obtain ⟨d, ftag, param, body, hdef, rfl, hty, hfree, -, hbody⟩ := hσ.call hg
  refine returns_checkDefinition tag (henv.toOver.lookup_defined hdef) (fun _ => ?_) nofun nofun
  exact hck.func ftag hty hfree hbody Way.tidy_ne_blocked (henv.globals .tidy)

/-! ### Records -/

theorem exists_fieldDecl {id : TypeId} {t : Node} {f : Name} (h : IsType σ t (.record id))
    (hf : σ.hasField id f) : ∃ tag fields decl, t = .record tag id fields none ∧
      Node.fieldDecl? fields f = some decl ∧ Denotes σ decl.ty (σ.field id f) := by
  cases h with
  | record tag hfields hnames =>
    obtain ⟨d, hd, rfl⟩ := (hnames f).1 hf
    cases hdecl : Node.fieldDecl? _ d.name with
    | none =>
      rw [Node.fieldDecl?, List.find?_eq_none] at hdecl
      exact absurd (beq_self_eq_true _) (hdecl d hd)
    | some decl =>
      have hname : decl.name = d.name := by simpa using List.find?_some hdecl
      exact ⟨tag, _, decl, rfl, hdecl, hname ▸ hfields decl (List.mem_of_find?_eq_some hdecl)⟩

theorem returns_dot (hev : IsEvaluator σ ev) (hck : IsChecker σ ck) {lhs : Node} {id : TypeId} {f : Name}
    (tag ftag : Tag) (hl : Code σ w Γ lhs (.record id)) (hf : σ.hasField id f) (hw : w ≠ .blocked)
    (henv : Views σ w Γ env) :
    Returns env (fun _ => checkDot ev ck tag lhs (.ident ftag f)) Unsettled
      (IsType σ · (σ.field id f)) := by
  -- The instance is evaluated where it stands, so its way is that of the code if names are kept.
  obtain ⟨u, hu, hutidy, hm⟩ : ∃ u, u ≠ .blocked ∧ (u = .tidy → w = .tidy) ∧ Mode w u env := by
    cases hr : env.resolve with
    | true =>
      exact ⟨.bare, Way.bare_ne_blocked, (absurd · Way.bare_ne_tidy), .inl ⟨hr, Way.bare_ne_tidy⟩⟩
    | false => exact ⟨w, hw, fun htidy => htidy, .inr ⟨hr, rfl⟩⟩
  have henv' : Views σ u Γ env := { henv with tight := fun htidy => henv.tight (hutidy htidy) }
  refine returns_checkDot tag ftag ((hev.code hl (henv.supplies hutidy) hm).faults
    fun _ => unsettled_of_tooDeep) (fun t template body hinst => ?_)
    ((hck.code hl hw henv).mono fun t ht => ?_)
  · cases hinst with
    | inst _ _ hbody hall =>
      obtain ⟨value, hvalue⟩ := Option.isSome_iff_exists.1 (hall f hf)
      exact ⟨value, hvalue, hck.code (IsEvaluator.code_of_fieldValue? hbody hvalue) hu henv'⟩
  · obtain ⟨t', fields, decl, rfl, hdecl, hty⟩ := exists_fieldDecl ht hf
    exact ⟨t', _, fields, _, decl, rfl, hdecl, hck.returns_typeExpr hev hty henv.toOver⟩

theorem returns_inst (hev : IsEvaluator σ ev) (hck : IsChecker σ ck) {id : TypeId} {template : Node}
    {body : List Node} (tag : Tag) (ht : Denotes σ template (.record id))
    (hb : ∀ n ∈ body, Field σ w Γ id n)
    (hall : ∀ f, σ.hasField id f → (Node.fieldValue? body f).isSome = true) (hw : w ≠ .blocked)
    (henv : Views σ w Γ env) :
    Returns env (fun _ => checkInst ev ck tag template body) Unsettled (IsType σ · (.record id)) := by
  refine (hck.returns_typeExpr hev ht henv.toOver).bind fun ty hty => ?_
  have hrecord := hty
  cases hty with
  | record t hfields hnames =>
    rename_i fields
    refine (returns_checkFields fun n hn => ?_).bind fun _ _ => ?_
    · cases hb n hn with
      | mk tag ftag hf h =>
        obtain ⟨_, _, decl, heq, hdecl, hdenotes⟩ := exists_fieldDecl hrecord hf
        cases heq
        exact ⟨_, _, _, _, _, _, decl, _, rfl, hdecl, hck.returns_typeExpr hev hdenotes henv.toOver,
          hck.code h hw henv, fun _ _ => IsType.compatible⟩
    · have hnone : fields.find? (fun d => (Node.fieldValue? body d.name).isNone) = none := by
        rw [List.find?_eq_none]
        intro d hd hmissing
        have hsome := hall d.name ((hnames d.name).2 ⟨d, hd, rfl⟩)
        rw [Option.isNone_iff_eq_none.1 hmissing] at hsome
        cases hsome
      simp only [hnone]
      exact returns_pure hrecord

theorem returns_member (hev : IsEvaluator σ ev) (hck : IsChecker σ ck) {id : TypeId} {template : Node}
    {m : Name} (tag mtag : Tag) (ht : Denotes σ template (.enum id)) (hm : m ∈ σ.members id)
    (henv : env.Over σ.store) :
    Returns env (fun _ => checkInst ev ck tag template [.ident mtag m]) Unsettled
      (IsType σ · (.enum id)) := by
  refine (hck.returns_typeExpr hev ht henv).bind fun ty hty => ?_
  cases hty with
  | enum t id =>
    simp only [Node.ident?, Option.any_some, List.contains_iff_mem.2 hm, if_true]
    exact returns_pure (.enum t id)

/-! ### Steps -/

/-- A step on code, by the evaluator and the checker of its parts. -/
theorem step_code (hσ : σ.IsSound) (hev : IsEvaluator σ ev) (hck : IsChecker σ ck) (h : Code σ w Γ n τ)
    (hw : w ≠ .blocked) (henv : Views σ w Γ env) :
    Returns env (fun _ => step ev ck n) Unsettled (IsType σ · τ) := by
  have hcompatible {τ : Ty} (t u : Node) (ht : IsType σ t τ) (hu : IsType σ u τ) :
      compatible t u = true := ht.compatible hu
  have hresolved {u : Way} (hu : u ≠ .tidy) : Mode w u { env with resolve := true } :=
    .inl ⟨rfl, hu⟩
  have hbare : Supplies σ .bare Γ Γ { env with resolve := true } :=
    (henv.supplies (absurd · Way.bare_ne_tidy)).resolved
  cases h with
  | lit tag l => exact returns_builtin _ fun t => .builtin t _
  | var tag hx =>
    obtain ⟨b, hfind, -, t, ty, hvalue, hty⟩ := henv.vars _ hx
    refine returns_checkBound tag (Env.lookup_bound hfind) ?_
    rw [hvalue]
    exact hck.placeholder t hty
  | value tag hx =>
    obtain ⟨d, v, hdef, hv⟩ := hσ.value hx
    exact returns_checkDefinition tag (henv.toOver.lookup_defined hdef)
      (fun _ => hck.code hv Way.bare_ne_blocked (henv.globals .bare)) (fun _ _ => unsettled_void)
      fun _ _ => hck.code hv Way.bare_ne_blocked ((henv.globals .bare).called v)
  | list tag h =>
    exact returns_checkList (fun e he => hck.code (h e he) hw henv) hcompatible fun t => .builtin t _
  | binOp tag hop hl hr =>
    exact returns_checkBinOp tag hop (hck.code hl hw henv) (fun _ => fits_of_isType)
      (hck.code hr hw henv) (fun _ => fits_of_isType) fun t => .builtin t _
  | dot tag ftag hl hf =>
    simp only [step, checkBinOp, if_true]
    exact hck.returns_dot hev tag ftag hl hf hw henv
  | ifElse tag hc ht he =>
    exact returns_checkIf tag (hck.code hc hw henv) (fun _ => fits_of_isType)
      (hck.returns_checkSeq hw ht henv _) (hck.returns_checkSeq hw he henv _) (fun _ => .inr)
      (fun _ => .inr) (fun _ => hck.restores) hcompatible fun _ _ => unsettled_cannotInfer _
  | whileDo tag _ hc hb =>
    exact (returns_expectBool (hck.code hc hw henv) fun _ => fits_of_isType).bind fun _ _ =>
      hck.returns_checkSeq hw hb henv _
  | matchOn tag hs hp hb _ =>
    exact returns_checkMatch tag (hck.code hs hw henv) (fun c hc hn => hck.code (hp c hc hn) hw henv)
      hcompatible (fun c hc => hck.returns_checkSeq hw (hb c hc) henv _) (fun _ => .inr)
      (fun _ => hck.restores) hcompatible (unsettled_cannotInfer _)
  | block tag h => exact hck.returns_checkSeq hw h henv _
  | inst tag ht hb hall => exact hck.returns_inst hev tag ht hb hall hw henv
  | member tag mtag ht hm => exact hck.returns_member hev tag mtag ht hm henv.toOver
  | func tag hty hfree hcap hbody =>
    have hinner : w.inner = .bare := by cases w <;> first | rfl | exact absurd rfl hw
    rw [hinner] at hbody
    exact hck.step_func hev tag hty hfree hbody Way.bare_ne_blocked (henv.restrict fun _ hx => hx.1)
  | call tag hname hf ha =>
    refine hck.returns_call tag hw henv (hck.code hf hw henv) ha
      (hev.code hf hbare (hresolved Way.bare_ne_tidy)) (fun t param body hfun => ?_)
      (hev.code (.call tag hname hf ha) hbare (hresolved Way.bare_ne_tidy))
    obtain ⟨hδ, -, hfree, -⟩ := hfun.of_func
    exact ⟨hδ, hfree⟩
  | callOuter tag hf ha =>
    have houter : Views σ .bare (σ.outer Γ) env := henv.restrict fun _ hx => hx.1
    refine hck.returns_call tag hw henv (hck.code hf Way.bare_ne_blocked houter) ha
      (hev.code hf (houter.supplies id).resolved (.inl ⟨rfl, Way.bare_ne_tidy⟩))
      (fun t param body hfun => ?_)
      (hev.code (.callOuter tag hf ha) hbare (hresolved Way.bare_ne_tidy))
    obtain ⟨hδ, -, hfree, -⟩ := hfun.of_func
    exact ⟨hδ, hfree⟩
  | callDefined tag gtag hg ha =>
    refine hck.returns_call tag hw henv (hck.callee gtag hg henv) ha
      (hev.callee gtag hg { henv.toOver with } rfl) (fun t param body hfun => ?_)
      (hev.code (.callDefined tag gtag hg ha) hbare (hresolved Way.bare_ne_tidy))
    obtain ⟨d, hdef⟩ := hfun
    obtain ⟨_, _, _, _, hdef', hδ, -, hfree, -⟩ := hσ.call hg
    rw [hdef] at hdef'
    cases hdef'
    exact ⟨hδ, hfree⟩

/-- The steps of a checker of simply typed code are those of one. -/
theorem step (hσ : σ.IsSound) (hev : IsEvaluator σ ev) (hre : ∀ n, Restores (ev n))
    (hck : IsChecker σ ck) : IsChecker σ (Check.step ev ck) where
  restores := restores_step hre hck.restores
  code := hck.step_code hσ hev
  assign tag xtag _ link h hw henv hx := returns_checkAlias tag xtag link hx (hck.code h hw henv)
  placeholder _ hty := returns_pure hty
  type := hck.step_type hσ hev hre
  func := hck.step_func hev
  callee := hck.step_callee hσ

end IsChecker

/-- Simply typed code passes the checker with its type, unless this is not settled. -/
theorem checks_check (hσ : σ.IsSound) : ∀ d, IsChecker σ (check d)
  | 0 => ⟨fun _ => restores_throw _, fun _ _ _ => returns_throw (.inl rfl),
      fun _ _ _ _ _ _ _ _ => returns_throw (.inl rfl), fun _ _ => returns_throw (.inl rfl),
      fun _ _ => returns_throw (.inl rfl), fun _ _ _ _ _ _ => returns_throw (.inl rfl),
      fun _ _ _ => returns_throw (.inl rfl)⟩
  | d + 1 => (checks_check hσ d).step hσ (evaluates_eval hσ d) (restores_eval d)

/-! ## Programs -/

mutual

/-- A program passes the checker with its type, unless this is not settled. -/
theorem Program.passes (hσ : σ.IsSound) (hw : w ≠ .blocked) : ∀ {Γ : Scope} {n : Node} {τ : Ty},
    Program σ w Γ n τ → ∀ {env : Env}, Views σ .tidy Γ env → ∀ d,
    Returns env (fun _ => check d n) Unsettled (IsType σ · τ)
  | _, _, _, .code h, _, henv, d =>
    (checks_check hσ d).code h hw { henv with tight := fun _ => henv.tight rfl }
  | _, _, _, .func .., _, _, 0 => returns_throw (.inl rfl)
  | _, _, _, @Program.func _ _ _ param body κ tag hty hfree hcap hbody, env, henv, d + 1 => by
    refine returns_checkFunc (B := fun _ => (IsType σ · κ)) (fun _ => unsettled_void)
      (Check.returns_declaredType ((checks_check hσ d).returns_denoted (evaluates_eval hσ d) hty
        henv.toOver) fun _ => IsType.isType) (fun ty t hty' _ => ?_)
      fun t id ty r hty' hr => .fn t id hty' hr
    exact (hbody.passes hσ hw
      (((henv.called (.func tag param body)).push hfree hty' t false).resolve false) d).returns
      hbody.ne_nil tag.span

theorem Body.passes (hσ : σ.IsSound) (hw : w ≠ .blocked) : ∀ {Γ : Scope} {items : List Node} {τ : Ty},
    Body σ w Γ items τ → ∀ {env : Env}, Views σ .tidy Γ env → ∀ d,
    ChecksSeq (fun _ => check d) env items Unsettled (IsType σ · τ)
  | _, _, _, .last h, _, henv, d => checksSeq_single (h.passes hσ hw henv d) h.boundName?
  | _, _, _, .next h hrest, _, henv, d => by
    refine .cons hrest.ne_nil (Leads.mono (returns_checkItem ((checks_check hσ d).code h hw
      { henv with tight := fun _ => henv.tight rfl }) h.boundName?) ?_)
    rintro _ e ⟨-, rfl⟩
    exact ⟨.same, hrest.passes hσ hw henv d⟩
  | _, _, _, .bind tag xtag hx hnew hfree hcap h hrest, _, henv, d => by
    refine .cons hrest.ne_nil ((leads_checkItem_alias ((checks_check hσ d).assign tag xtag _ _ h hw
      { henv with tight := fun _ => henv.tight rfl } (henv.lookup_eq_none hfree hx))).mono ?_)
    rintro _ _ ⟨ty, t, hty, rfl⟩
    exact ⟨.push _ .same, hrest.passes hσ hw (henv.push hfree hty t false) d⟩

end

end Residual.SimplyTyped
