/-
Specialization. A call of a function literal first evaluates the function, with its parameter unknown,
and then the body that is left over, with the parameter bound to the argument. If the call passes the
checker, this gives the value that the body has with the parameter known from the start.

In the first stage all that is known of the parameter is its type; in the second stage the parameter
stands for a literal. Since what is left over of a branch is evaluated again, with its aliases, no alias
may have the name of the parameter.
-/
import Residual.Proofs.StagedTyping

namespace Residual

namespace Staging

open Pass Residual.FirstOrder Residual.Selection
open Soundness (returns_check_seq)

/-! ## Expressions -/

mutual

/-- An expression without functions: literals, names, operators other than the access to a field, `if`,
lists, and blocks. -/
inductive Expr : Node → Prop where
  | lit (tag : Tag) (l : Literal) : Expr (.lit tag l)
  | ident (tag : Tag) (x : Name) : Expr (.ident tag x)
  | binOp {op : Operator} {lhs rhs : Node} (tag : Tag) (hop : op ≠ .dot) (hl : Expr lhs)
    (hr : Expr rhs) : Expr (.binOp tag op lhs rhs)
  | ifElse {c : Node} {thenBody elseBody : List Node} (tag : Tag) (hc : Expr c)
    (ht : ExprSeq thenBody) (he : ExprSeq elseBody) : Expr (.ifElse tag c thenBody elseBody)
  | list {items : List Node} (tag : Tag) (h : ∀ n ∈ items, Expr n) : Expr (.list tag items)
  | block {items : List Node} (tag : Tag) (h : ExprSeq items) : Expr (.block tag items)

/-- A sequence of expressions and aliases, of which no alias is the last node. -/
inductive ExprSeq : List Node → Prop where
  | nil : ExprSeq []
  | cons {n : Node} {rest : List Node} (h : Expr n) (hrest : ExprSeq rest) : ExprSeq (n :: rest)
  | bind {y : Name} {value : Node} {transparent : Bool} {link : Option DefId} {rest : List Node}
    (tag ytag : Tag) (hhash : '#' ∉ y.toList) (h : Expr value) (hrest : ExprSeq rest)
    (hne : rest ≠ []) : ExprSeq (.assign tag (.ident ytag y) value transparent link :: rest)

end

mutual

theorem Expr.named (links : Links) : ∀ {n : Node}, Expr n → Named links ('#' ∉ ·.toList) n
  | _, .lit tag l => .lit tag l
  | _, .ident tag x => .ident tag x
  | _, .binOp tag hop hl hr => .binOp tag hop (hl.named links) (hr.named links)
  | _, .ifElse tag hc ht he => .ifElse tag (hc.named links) (ht.named links) (he.named links)
  | _, .list tag h => .list tag fun n hn => (h n hn).named links
  | _, .block tag h => .block tag (h.named links)

/-- A suffixed name has a `#`, so no alias bears one. -/
theorem ExprSeq.named (links : Links) : ∀ {items : List Node}, ExprSeq items →
    NamedSeq links ('#' ∉ ·.toList) items
  | _, .nil => .nil
  | _, .cons h hrest => .cons (h.named links) (hrest.named links)
  | _, .bind tag ytag hhash h hrest hne => .bind tag ytag hhash
    (.inr fun k hk => hk (Env.mem_suffixed _ k)) (h.named links) (hrest.named links) hne

end

/-! ## The parameter -/

/-- Code is evaluated where the parameter stands for the literal. -/
def paramOutlook (known : Bool) (p : Name) (v : Literal) : Outlook :=
  ⟨known, Knows p (some v), Knows.resolve⟩

variable {store : Definitions} {p : Name} {v : Literal} {σ : Name → Node}
variable {Γ : List (Name × Builtin)} {known : Bool} {w : Node} {env : Env}

/-- The name of the parameter is code for the literal. -/
theorem codeFor_param (tag : Tag) : CodeFor (paramOutlook false p v) (.lit noTag v) (.ident tag p) :=
  codeFor_ident tag rfl fun hk => (Knows.returns_var hk tag).mono fun n hn => by
    have hbare : n.bare = .lit noTag v := hn
    refine ⟨?_, hbare⟩
    cases n with
    | lit tag l => exact .lit tag l
    | _ => cases hbare

/-- A binding that holds code for a value, or that is the parameter while it is not known. -/
inductive Holds (known : Bool) (p : Name) (v : Literal) : Node → Binding → Prop where
  | code {w : Node} {b : Binding} (h : CodeFor (paramOutlook known p v) w b.value) : Holds known p v w b
  | param {b : Binding} (hk : known = false) (hb : b.value.isPlaceholder = true)
    (hname : b.rename.getD b.name = p) : Holds known p v (.lit noTag v) b

/-- The parameter bears a name in scope, or another name in place of one. -/
def IsParam (p : Name) (Γ : List (Name × Builtin)) : Prop :=
  (Γ.lookup p).isSome = true ∨ ∃ x k, p = Env.suffixed x k ∧ (Γ.lookup x).isSome = true

/-- An environment of the evaluator that holds code for the values of the names in scope. -/
structure HoldsCode (store : Definitions) (known : Bool) (p : Name) (v : Literal) (σ : Name → Node)
    (Γ : List (Name × Builtin)) (env : Env) : Prop where
  store_eq : env.store = store
  resolve : env.resolve = true
  param : IsParam p Γ
  vars : ∀ y a, Γ.lookup y = some a → ∃ b, env.locals.find? y = some b ∧ Holds known p v (σ y) b
  others : Covers Γ env

theorem IsParam.cons (h : IsParam p Γ) (y : Name) (a : Builtin) : IsParam p ((y, a) :: Γ) := by
  have hsome {z : Name} (hz : (Γ.lookup z).isSome = true) :
      (List.lookup z ((y, a) :: Γ)).isSome = true := by
    by_cases hzy : z = y
    · subst hzy
      rw [List.lookup_cons_self]
      rfl
    · rwa [lookup_cons_of_ne a hzy]
  rcases h with h | ⟨x, k, hp, hx⟩
  · exact .inl (hsome h)
  · exact .inr ⟨x, k, hp, hsome hx⟩

theorem HoldsCode.push (h : HoldsCode store known p v σ Γ env) {b : Binding} {a : Builtin}
    (hb : Holds known p v w b) :
    HoldsCode store known p v (Function.update σ b.name w) ((b.name, a) :: Γ) (env.push b) where
  store_eq := h.store_eq
  resolve := h.resolve
  param := h.param.cons b.name a
  vars y c hy := by
    by_cases hname : y = b.name
    · subst hname
      exact ⟨b, env.locals.find?_push_self b, by rwa [Function.update_self]⟩
    · rw [lookup_cons_of_ne a hname] at hy
      obtain ⟨b', hfind, hb'⟩ := h.vars y c hy
      exact ⟨b', (Locals.find?_push_of_ne hname).trans hfind, by rwa [Function.update_of_ne hname]⟩
  others := h.others.push a b

/-- An alias whose name is not in scope does not bear that of the parameter in residual code. -/
theorem HoldsCode.alias_ne_param (h : HoldsCode store known p v σ Γ env) {y : Name}
    (hy : Γ.lookup y = none) (hhash : '#' ∉ y.toList) : (env.freshName y).getD y ≠ p := by
  have hbound {x : Name} (hx : (Γ.lookup x).isSome = true) : env.isTaken x = true := by
    obtain ⟨a, ha⟩ := Option.isSome_iff_exists.1 hx
    obtain ⟨b, hfind, -⟩ := h.vars x a ha
    rw [Env.isTaken, Locals.contains, hfind]
    rfl
  intro heq
  cases htaken : env.isTaken y with
  | false =>
    -- the alias keeps its name, while that of the parameter is in scope or has a suffix
    rw [Env.freshName_of_free htaken, Option.getD_none] at heq
    subst heq
    rcases h.param with hp | ⟨x, k, rfl, -⟩
    · rw [hy] at hp
      cases hp
    · exact hhash (Env.mem_suffixed x k)
  | true =>
    -- the suffixed name was free, while that of the parameter is taken or stems from another name
    obtain ⟨j, hj, hfree, -⟩ := Env.freshName_of_taken htaken
    rw [hj, Option.getD_some] at heq
    subst heq
    rcases h.param with hp | ⟨x, k, hx, hsome⟩
    · rw [hbound hp] at hfree
      cases hfree
    · rw [← Env.suffixed_left_injective hx, hy] at hsome
      cases hsome

/-- A binding of another name leaves the parameter known. -/
theorem knows_push {x : Name} {o : Option Literal} (h : Knows x o env) {b : Binding}
    (hb : b.name ≠ x) : Knows x o (env.push b) where
  resolve := h.resolve
  binding := by
    obtain ⟨c, hfind, hc⟩ := h.binding
    exact ⟨c, (Locals.find?_push_of_ne hb.symm).trans hfind, hc⟩

/-- A name in scope becomes its code; the parameter, while it is not known, the name it bears. -/
theorem HoldsCode.returns_var (h : HoldsCode store known p v σ Γ env) {x : Name} {a : Builtin}
    (tag : Tag) (hx : Γ.lookup x = some a) :
    Returns env (fun d => eval d (.ident tag x)) NoFault (CodeFor (paramOutlook known p v) (σ x)) := by
  obtain ⟨b, hfind, hb⟩ := h.vars x a hx
  generalize σ x = w at hb
  cases hb with
  | code hb =>
    refine (returns_found h.resolve (Env.lookup_bound hfind) hb.isPlaceholder rfl tag).mono ?_
    rintro _ rfl
    exact hb
  | param hknown hplace hname =>
    -- the parameter is not known yet, so its name stays, spelled as in residual code
    subst hknown hname
    refine Returns.succ (returns_env.bind fun _ heq => ?_)
    subst heq
    simp only [Env.lookup_bound hfind, Found.isPlaceholder, hplace, Bool.not_true, Bool.false_and,
      Bool.false_eq_true, if_false, Found.rename?]
    cases b.rename with
    | some other => exact (returns_tagAt _).bind fun t _ => returns_pure (codeFor_param t)
    | none =>
      rw [Option.getD_none, Locals.name_of_find? hfind]
      exact returns_pure (codeFor_param tag)

/-- The setting of a function: in the first stage all that may be known of its parameter is the type, in
the second one the parameter stands for the literal. -/
def specializing (store : Definitions) (p : Name) (v : Literal) :
    Setting store ('#' ∉ ·.toList) where
  Host σ Γ o env := ∃ known, o = paramOutlook known p v ∧ HoldsCode store known p v σ Γ env
  kept := by
    rintro σ Γ _ env ⟨known, rfl, h⟩ hresolve
    rw [h.resolve] at hresolve
    cases hresolve
  var := by
    rintro σ Γ _ env x a tag ⟨known, rfl, h⟩ hx
    exact h.returns_var tag hx
  unbound := by
    rintro σ Γ _ env x w a tag ⟨known, rfl, h⟩ hx hw
    exact (hw.returns tag h.store_eq (h.others x hx) h.resolve).mono fun _ hn => hn.codeFor
  bind := by
    rintro σ Γ _ env y w m b transparent ⟨known, rfl, h⟩ hy hm
    have hpush := h.push (b := ⟨y, m, transparent, env.freshName y⟩) (a := b) (.code hm)
    refine ⟨paramOutlook known p v, ⟨known, rfl, hpush⟩, ?_, fun _ _ _ hn => hn⟩
    rintro e c hk hname -
    exact knows_push hk fun hc => h.alias_ne_param hy.unbound hy.name (hname.symm.trans hc)

/-! ## Functions -/

/-- The name of a built-in type stands for the type, or for the literal that is defined in its place. -/
theorem returns_typeName (hstore : store.AreLiterals) {F : Fault → Prop} {b : Builtin} (tag : Tag)
    (hstore_eq : env.store = store) (hresolve : env.resolve = true)
    (hfind : env.locals.find? b.name = none) :
    Returns env (fun d => eval d (.ident tag b.name)) F
      fun n => n.isType = false ∨ ∃ t, n = .builtin t b := by
  cases hdef : store.lookup b.name with
  | some found =>
    obtain ⟨d, m⟩ := found
    have hlookup : env.lookup b.name = some (.defined d m) := by
      rw [Env.lookup, hfind, hstore_eq, hdef]
    obtain ⟨ltag, l, rfl⟩ := Node.eq_lit_of_isLiteral (hstore hdef)
    refine (returns_found hresolve hlookup rfl rfl tag).mono ?_
    rintro _ rfl
    exact .inl rfl
  | none =>
    have hlookup : env.lookup b.name = some (.builtin b) := by
      rw [Env.lookup, hfind, hstore_eq, hdef, b.ofName?_name]
      rfl
    refine Returns.succ (returns_env.bind fun _ heq => ?_)
    subst heq
    simp only [hlookup, Found.isPlaceholder, hresolve, Bool.not_false, Bool.true_or, Bool.and_self,
      if_true]
    exact (returns_tagAt _).bind fun t _ => returns_pure (.inr ⟨t, rfl⟩)

variable {x : Name} {b : Builtin} {body : List Node} {ftag ttag : Tag} {span : Span}

/-- A function that passes has a body that can be evaluated in stages. -/
theorem returns_check_func (hstore : store.AreLiterals) (hbody : ExprSeq body)
    (hids : ∀ {y d n}, store.lookup y = some (d, n) → n.id ≠ ftag.id) (henv : env.IsFresh store) :
    Returns env (fun d => check d (.func ftag ⟨span, x, .ident ttag b.name⟩ body)) NotVoid
      fun t => ∃ tag id dom cod, t = .fnType tag id dom cod ∧
        Gives (fun a => ∃ c, (specializing store p v).StagesSeq [(x, a)] body c) dom := by
  have hjudges := judges_of_isFresh henv
  -- the name of the type may be defined as a literal, and what is no type declares `Any`
  have hdeclared : Returns env
      (fun d => Check.declaredType (eval d) (check d) (.ident ttag b.name)) NotVoid
      (Gives fun _ => True) := by
    have hdenoted : Returns env (fun d => Check.denoted (eval d) (check d) (.ident ttag b.name))
        NotVoid fun n => n.isType = false ∨ ∃ t, n = .builtin t b :=
      (returns_check_ident (S := specializing store p v) hstore ttag hjudges).bind fun _ _ =>
        Returns.under (returns_typeName hstore ttag henv.store_eq rfl (henv.find?_eq_none _))
          (Guard.lawful_resolve true)
    refine hdenoted.bind fun n hn => ?_
    rcases hn with hn | ⟨t, rfl⟩
    · simp only [hn, Bool.false_eq_true, if_false]
      exact returns_type _ trivial
    · exact returns_pure ⟨b, t, rfl, trivial⟩
  refine Returns.succ (returns_env.bind fun _ heq => ?_)
  subst heq
  simp only [henv.isOnStack, Bool.false_eq_true, if_false]
  refine hdeclared.bind fun dom hdom => (Check.returns_placeholder _ _).bind fun m hm => ?_
  obtain ⟨a, t, rfl, -⟩ := hdom
  obtain ⟨t', rfl⟩ := hm
  have hinner := ((hjudges.enterCall (f := .func ftag ⟨span, x, .ident ttag b.name⟩ body) hids).push
    (b := ⟨x, .selfType t' (.builtin t a), false, none⟩) ⟨t', t, rfl⟩).resolve false
  have hseq := returns_check_seq
    ((hbody.named env.links).checked (S := specializing store p v) hstore hinner) ftag.span
  refine (Returns.under (Returns.under (Returns.under hseq (Guard.lawful_resolve false))
    (Guard.lawful_binding _)) (Guard.lawful_call _)).bind fun cod hcod => ?_
  obtain ⟨c, -, -, hstages⟩ := hcod
  exact (returns_tagAt _).bind fun tag _ =>
    returns_pure ⟨tag, _, _, cod, rfl, a, t, rfl, c, hstages⟩

theorem runOn_checkArg_ok {expected found : Node} {call arg definition : Span} {s t : Machine}
    (h : (Check.checkArg expected found call arg definition).runOn s = (.ok ⟨⟩, t)) :
    compatible expected found = true := by
  unfold Check.checkArg at h
  split at h
  · assumption
  · cases h

/-- If a call of a function literal passes, the argument goes with the type of the parameter. -/
theorem stages_of_check_call (hstore : store.AreLiterals) (hbody : ExprSeq body)
    (hids : ∀ {y d n}, store.lookup y = some (d, n) → n.id ≠ ftag.id) {tag vtag : Tag} {ty : Node}
    {depth : Nat} {s t : Machine} (hs : s.env.IsFresh store)
    (h : (check depth (.call tag (.func ftag ⟨span, x, .ident ttag b.name⟩ body)
      (.lit vtag v))).runOn s = (.ok ty, t)) :
    ∃ a c, Fits a (.lit noTag v) ∧ (specializing store p v).StagesSeq [(x, a)] body c := by
  cases depth with
  | zero => cases h
  | succ depth =>
    obtain ⟨calleeType, s₁, hcallee, h⟩ := runOn_bind_ok h
    obtain ⟨⟨ftag', id, dom, cod, rfl, a, atag, rfl, c, hstages⟩, -⟩ :=
      (returns_check_func (p := p) (v := v) hstore hbody hids hs).of_run
        (fun _ _ hle => approximates_check hle _) depth rfl hcallee
    obtain ⟨_, s₂, hsignature, h⟩ := runOn_bind_ok h
    cases hsignature
    obtain ⟨argType, s₃, harg, h⟩ := runOn_bind_ok h
    obtain ⟨⟨_, vtag', rfl, rfl⟩, -⟩ := (Returns.succ (returns_type v.builtin rfl) :
      Returns s₁.env (fun d => check d (.lit vtag v)) NotVoid (Gives (· = v.builtin))).of_run
        (fun _ _ hle => approximates_check hle _) depth rfl harg
    obtain ⟨function, s₄, -, h⟩ := runOn_bind_ok h
    -- Whether the callee evaluates to a function or not, the argument is held against its type.
    have hcompatible : compatible (.builtin atag a) (.builtin vtag' v.builtin) = true := by
      split at h
      · rename_i heq
        cases heq
        obtain ⟨_, _, hcheck, -⟩ := runOn_bind_ok h
        exact runOn_checkArg_ok hcheck
      · rename_i heq
        cases heq
      · rename_i heq
        cases heq
        obtain ⟨_, _, hcheck, -⟩ := runOn_bind_ok h
        exact runOn_checkArg_ok hcheck
      · rename_i heq
        cases heq
    exact ⟨a, c, .of_compatible (eq_of_compatible hcompatible) (.inr rfl), hstages⟩

/-! ## The two ways -/

/-- The name that a parameter bears in residual code is that of the parameter, or stands for it. -/
theorem isParam_freshName (env : Env) (x : Name) (a : Builtin) :
    IsParam ((env.freshName x).getD x) [(x, a)] := by
  have hself : (List.lookup x [(x, a)]).isSome = true := by simp
  cases htaken : env.isTaken x with
  | false =>
    rw [Env.freshName_of_free htaken]
    exact .inl hself
  | true =>
    obtain ⟨k, hk, -, -⟩ := Env.freshName_of_taken htaken
    rw [hk]
    exact .inr ⟨x, k, rfl, hself⟩

/-- With nothing else bound, a binding of the parameter makes an environment for the body. -/
theorem holdsCode_param {c : Binding} {a : Builtin} (hstore : env.store = store)
    (hresolve : env.resolve = true) (hfind : ∀ y, env.locals.find? y = none)
    (hp : IsParam p [(c.name, a)]) (hc : Holds known p v (.lit noTag v) c) :
    HoldsCode store known p v (fun _ => .lit noTag v) [(c.name, a)] (env.push c) where
  store_eq := hstore
  resolve := hresolve
  param := hp
  vars y a' hy := by
    by_cases hname : y = c.name
    · subst hname
      exact ⟨c, env.locals.find?_push_self c, hc⟩
    · rw [lookup_cons_of_ne a hname] at hy
      cases hy
  others := Covers.push (fun y _ => hfind y) a c

/-- The body leads to code for a value wherever it is evaluated with the parameter bound. -/
def Leaves (store : Definitions) (p x : Name) (v : Literal) (a : Builtin) (body : List Node)
    (w : Node) : Prop :=
  ∀ {known : Bool} {env : Env}, HoldsCode store known p v (fun _ => .lit noTag v) [(x, a)] env →
    LeavesSeq (paramOutlook known p v) env body w

variable {a : Builtin}

/-- Specialization: the function evaluates to one whose body becomes the value. -/
theorem returns_specialized (hstore : store.AreLiterals) (henv : env.IsFresh store)
    (hbody : Leaves store ((env.freshName x).getD x) x v a body w) :
    Returns env
      (fun d => Eval.evalType (eval d) (.func ftag ⟨span, x, .ident ttag b.name⟩ body)) NoFault
      fun f => ∃ t param body', f = .func t param body' ∧
        param.name = (env.freshName x).getD x ∧ BecomesSeq (Knows param.name (some v)) w body' := by
  refine Returns.under (Returns.succ ?_) (Guard.lawful_resolve true)
  have htype : Returns (Guard.enter (.resolve true) env)
      (fun d => Eval.evalType (eval d) (.ident ttag b.name)) NoFault fun _ => True := by
    have hentered : (Guard.enter (.resolve true) env).store = store := henv.store_eq
    refine Returns.under (P := fun _ => True) ?_ (Guard.lawful_resolve true)
    exact (returns_typeName hstore ttag hentered rfl (henv.find?_eq_none _)).mono fun _ _ => trivial
  refine htype.bind fun ty _ => ?_
  refine (returns_tagAt _).bind fun t _ => returns_env.bind fun _ heq => ?_
  subst heq
  -- Whether the name is that of a type or not, the parameter is a placeholder.
  have hplace : Node.isPlaceholder (if ty.isType then Node.selfType t ty else .unknown t) = true := by
    split <;> rfl
  have hrename : (Guard.enter (.resolve true) env).freshName x = env.freshName x :=
    Env.freshName_congr rfl fun _ => rfl
  rw [hrename]
  have hparam : Holds false ((env.freshName x).getD x) v (.lit noTag v)
      ⟨x, if ty.isType then .selfType t ty else .unknown t, false, env.freshName x⟩ :=
    .param rfl hplace rfl
  have hentered : ({ env with resolve := true }.enterCall
      (.func ftag ⟨span, x, .ident ttag b.name⟩ body)).store = store := henv.store_eq
  have hseq := Leads.scope (hbody (holdsCode_param hentered rfl henv.find?_eq_none
    (isParam_freshName env x a) hparam))
  refine (Returns.under (Returns.under hseq (Guard.lawful_binding _))
    (Guard.lawful_call _)).bind fun ns hns => ?_
  exact (returns_tagAt _).bind fun t' _ => returns_pure ⟨t', _, ns, rfl, rfl, hns.becomes⟩

/-- The call evaluates to the value. -/
theorem returns_applied (hstore : store.AreLiterals) (henv : env.IsFresh store)
    (hresolve : env.resolve = true) (hbody : Leaves store ((env.freshName x).getD x) x v a body w)
    (tag vtag : Tag) :
    Returns env (fun d => eval d (.call tag (.func ftag ⟨span, x, .ident ttag b.name⟩ body)
      (.lit vtag v))) NoFault (Shows w) := by
  refine returns_unfolded tag hresolve (returns_specialized hstore henv hbody)
    (Returns.succ (returns_pure (P := (· = .lit vtag v)) rfl)) ?_
  rintro _ _ ⟨t, param, body', rfl, -, hbecomes⟩ rfl
  refine ⟨t, param, body', rfl, .inr rfl, hbecomes ⟨hresolve, ?_⟩⟩
  exact ⟨⟨param.name, .lit vtag v, true, none⟩, Locals.find?_push_self _ _, vtag, rfl⟩

/-- The block that binds the name and goes on with the body evaluates to the value. -/
theorem returns_direct (henv : env.IsFresh store) (hresolve : env.resolve = true)
    (hp : IsParam p [(x, a)]) (hbody : Leaves store p x v a body w)
    (tag atag xtag vtag : Tag) (transparent : Bool) (link : Option DefId) :
    Returns env (fun d => eval d (.block tag
      (.assign atag (.ident xtag x) (.lit vtag v) transparent link :: body))) NoFault (Shows w) := by
  have hseq : EvalsSeq env (.assign atag (.ident xtag x) (.lit vtag v) transparent link :: body)
      NoFault (Shows w) := by
    refine .bind atag xtag transparent link
      (Returns.succ (returns_pure (P := (· = .lit vtag v)) rfl)) ?_
    rintro _ rfl
    have hparam : Holds true p v (.lit noTag v)
        ⟨x, .lit vtag v, transparent || env.transparent, env.freshName x⟩ :=
      .code (shows_lit vtag v).codeFor
    refine (hbody (holdsCode_param henv.store_eq hresolve henv.find?_eq_none hp hparam)).mono ?_
    rintro ns e ⟨hns, hopen⟩
    obtain ⟨n, hlast, hn⟩ := hns.last (.inl hresolve)
    exact ⟨⟨n, hlast, hn.shows rfl⟩, hopen⟩
  exact Returns.succ (hseq.value hresolve tag.span)

end Staging

open Staging in
/-- Specializing and then applying is evaluating directly. Over definitions that are literals, if the
call of a function literal passes the checker, then the call and the block that binds the parameter to
the argument evaluate to one value, up to tags. -/
theorem eval_call_eq_eval_block {store : Definitions} (hstore : store.AreLiterals) {body : List Node}
    (hbody : ExprSeq body) {ftag : Tag}
    (hids : ∀ {y d n}, store.lookup y = some (d, n) → n.id ≠ ftag.id) {x : Name} {b : Builtin}
    {v : Literal} {tag ttag vtag atag xtag btag : Tag} {span : Span} {transparent : Bool}
    {link : Option DefId} {ty : Node} {depth : Nat} {s s₁ s₂ t : Machine}
    (hs : s.env.IsFresh store) (hs₁ : s₁.env.IsFresh store) (hs₂ : s₂.env.IsFresh store)
    (hresolve₁ : s₁.env.resolve = true) (hresolve₂ : s₂.env.resolve = true)
    (hcheck : (check depth (.call tag (.func ftag ⟨span, x, .ident ttag b.name⟩ body)
      (.lit vtag v))).runOn s = (.ok ty, t)) :
    ∃ n₁ n₂ t₁ t₂ depth', Value n₁ ∧ n₁.bare = n₂.bare ∧ ∀ d ≥ depth',
      (eval d (.call tag (.func ftag ⟨span, x, .ident ttag b.name⟩ body) (.lit vtag v))).runOn s₁ =
        (.ok n₁, t₁) ∧
      (eval d (.block btag (.assign atag (.ident xtag x) (.lit vtag v) transparent link ::
        body))).runOn s₂ = (.ok n₂, t₂) := by
  -- the checker tells how the body goes in stages; the parameter bears its residual name in both
  obtain ⟨a, c, hfits, hstages⟩ := stages_of_check_call (p := (s₁.env.freshName x).getD x) hstore
    hbody hids hs hcheck
  have hσ : Realizes (fun _ => .lit Selection.noTag v) [(x, a)] := by
    have hnil : Realizes (fun _ => .lit Selection.noTag v) [] := by
      intro y a' hy
      cases hy
    simpa using hnil.update (y := x) hfits
  obtain ⟨w, -, hstaged⟩ := hstages hσ
  have hleaves : Leaves store ((s₁.env.freshName x).getD x) x v a body w := fun henv =>
    hstaged ⟨_, rfl, henv⟩
  obtain ⟨n₁, t₁, depth₁, hn₁, hrun₁⟩ :=
    (returns_applied hstore hs₁ hresolve₁ hleaves tag vtag).exists_run
  obtain ⟨n₂, t₂, depth₂, hn₂, hrun₂⟩ := (returns_direct hs₂ hresolve₂
    (isParam_freshName s₁.env x a) hleaves btag atag xtag vtag transparent link).exists_run
  refine ⟨n₁, n₂, t₁, t₂, max depth₁ depth₂, hn₁.value, hn₁.bare.trans hn₂.bare.symm, ?_⟩
  intro d hd
  exact ⟨hrun₁ d (by omega), hrun₂ d (by omega)⟩

/-- `x = 5`, `k = 3` -/
def scaleDefinitions : Definitions :=
  ⟨[("x", .lit ⟨0, .builtin⟩ (.number 5)), ("k", .lit ⟨1, .builtin⟩ (.number 3))]⟩

/-- `y = x + k; if x < 2 then { w = [y, k]; w } else [y * x]` -/
def scaleBody : List Node :=
  [.assign ⟨2, .builtin⟩ (.ident ⟨3, .builtin⟩ "y")
    (.binOp ⟨4, .builtin⟩ .add (.ident ⟨5, .builtin⟩ "x") (.ident ⟨6, .builtin⟩ "k")) false none,
  .ifElse ⟨7, .builtin⟩
    (.binOp ⟨8, .builtin⟩ .lt (.ident ⟨9, .builtin⟩ "x") (.lit ⟨10, .builtin⟩ (.number 2)))
    [.assign ⟨11, .builtin⟩ (.ident ⟨12, .builtin⟩ "w")
      (.list ⟨13, .builtin⟩ [.ident ⟨14, .builtin⟩ "y", .ident ⟨15, .builtin⟩ "k"]) false none,
    .ident ⟨16, .builtin⟩ "w"]
    [.list ⟨17, .builtin⟩
      [.binOp ⟨18, .builtin⟩ .mul (.ident ⟨19, .builtin⟩ "y") (.ident ⟨20, .builtin⟩ "x")]]]

/-- `(@x(Number) …)(1)` -/
def scaleCall : Node :=
  .call ⟨21, .builtin⟩ (.func ⟨22, .builtin⟩ ⟨.builtin, "x", .ident ⟨23, .builtin⟩ "Number"⟩ scaleBody)
    (.lit ⟨24, .builtin⟩ (.number 1))

/-- `{ x = 1; … }` -/
def scaleBlock : Node :=
  .block ⟨25, .builtin⟩ (.assign ⟨26, .builtin⟩ (.ident ⟨27, .builtin⟩ "x")
    (.lit ⟨24, .builtin⟩ (.number 1)) false none :: scaleBody)

open Staging in
theorem exprSeq_scaleBody : ExprSeq scaleBody := by
  have hnames : ∀ n ∈ [Node.ident ⟨14, .builtin⟩ "y", .ident ⟨15, .builtin⟩ "k"], Expr n := by
    intro n hn
    simp only [List.mem_cons, List.not_mem_nil, or_false] at hn
    rcases hn with rfl | rfl <;> exact .ident _ _
  have hproduct : Expr (.binOp ⟨18, .builtin⟩ .mul (.ident ⟨19, .builtin⟩ "y")
      (.ident ⟨20, .builtin⟩ "x")) := .binOp _ (by decide) (.ident _ _) (.ident _ _)
  refine .bind _ _ (by decide) (.binOp _ (by decide) (.ident _ _) (.ident _ _)) (.cons (.ifElse _
    (.binOp _ (by decide) (.ident _ _) (.lit _ _)) ?_ ?_) .nil) (List.cons_ne_nil _ _)
  · exact .bind _ _ (by decide) (.list _ hnames) (.cons (.ident _ _) .nil) (List.cons_ne_nil _ _)
  · refine .cons (.list _ fun n hn => ?_) .nil
    rw [List.mem_singleton.1 hn]
    exact hproduct

/-- The name of the parameter is taken, and the condition is not known when the body is specialized. -/
theorem eval_call_eq_eval_block_scale :
    ∃ ty t n₁ n₂ t₁ t₂ depth',
      (check 20 scaleCall).runOn (freshMachine scaleDefinitions true) = (.ok ty, t) ∧
      Staging.Value n₁ ∧ n₁.bare = n₂.bare ∧ ∀ d ≥ depth',
        (eval d scaleCall).runOn (freshMachine scaleDefinitions true) = (.ok n₁, t₁) ∧
        (eval d scaleBlock).runOn (freshMachine scaleDefinitions true) = (.ok n₂, t₂) := by
  have hentries {y d n} (h : scaleDefinitions.lookup y = some (d, n)) :
      n = .lit ⟨0, .builtin⟩ (.number 5) ∨ n = .lit ⟨1, .builtin⟩ (.number 3) := by
    obtain ⟨entry, hentry, rfl⟩ := Definitions.mem_of_lookup h
    simp only [scaleDefinitions, List.mem_cons, List.not_mem_nil, or_false] at hentry
    rcases hentry with rfl | rfl
    · exact .inl rfl
    · exact .inr rfl
  have hcheck : ((check 20 scaleCall).runOn (freshMachine scaleDefinitions true)).1.isOk = true := by
    decide +kernel
  obtain ⟨ty, t, hcheck⟩ := Pass.runOn_of_isOk hcheck
  have hfresh := isFresh_freshMachine scaleDefinitions true
  obtain ⟨n₁, n₂, t₁, t₂, depth', hvalue, hbare, hrun⟩ := eval_call_eq_eval_block
    (fun h => by rcases hentries h with rfl | rfl <;> rfl) exprSeq_scaleBody
    (fun h => by rcases hentries h with rfl | rfl <;> decide) (b := .number) hfresh hfresh hfresh
    rfl rfl hcheck
  exact ⟨ty, t, n₁, n₂, t₁, t₂, depth', hcheck, hvalue, hbare, hrun⟩

end Residual
