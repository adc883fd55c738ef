/-
The two modes of evaluation. Where names are kept, evaluation leaves a block with its aliases; where they
are resolved, it gives a value. If an expression without functions passes the checker, both runs
succeed, and what the first one leaves over evaluates to what the second one gives.

The residual block has the aliases of the block, but an alias whose name is that of a definition bears
another one. Code for a value is read against the names that the aliases bear in residual code, `ρ`. It
stays code while aliases are added, for these names are all different, and none of them is defined or
built in: that of an alias that was renamed has a suffix, and no alias of the expression has this name.
-/
import Residual.Proofs.StagedTyping

namespace Residual

namespace Modes

open Pass Residual.FirstOrder Residual.Selection Residual.Staging

variable {store : Definitions} {names : Name → Prop} {ρ : Name → Name} {σ : Name → Node}
variable {Γ : List (Name × Builtin)} {known : Bool} {y : Name} {w : Node} {env : Env}

/-! ## Residual code -/

/-- An environment in which residual code is evaluated: the names that are in scope in the code stand for
their values, and what is defined or built in is not hidden. -/
structure Provides (store : Definitions) (ρ : Name → Name) (σ : Name → Node)
    (Γ : List (Name × Builtin)) (env : Env) : Prop where
  store_eq : env.store = store
  resolve : env.resolve = true
  vars : ∀ y a, Γ.lookup y = some a →
    ∃ b, env.locals.find? (ρ y) = some b ∧ Staging.Shows (σ y) b.value
  others : ∀ {x w a}, Meaning store x w a → env.locals.find? x = none

/-- The name that an alias bears in residual code. -/
def residualName (env : Env) (y : Name) : Name := (env.freshName y).getD y

/-- A name for an alias in residual code that hides nothing. -/
structure IsFree (store : Definitions) (ρ : Name → Name) (Γ : List (Name × Builtin)) (r : Name) :
    Prop where
  ne : ∀ z a, Γ.lookup z = some a → ρ z ≠ r
  unbound : ∀ {w a}, ¬ Meaning store r w a

theorem Provides.push (h : Provides store ρ σ Γ env) {r : Name} (hr : IsFree store ρ Γ r)
    {b : Binding} (hname : b.name = r) (hb : Staging.Shows w b.value) (a : Builtin) :
    Provides store (Function.update ρ y r) (Function.update σ y w) ((y, a) :: Γ) (env.push b) where
  store_eq := h.store_eq
  resolve := h.resolve
  vars z c hz := by
    by_cases hzy : z = y
    · subst hzy
      rw [Function.update_self, Function.update_self, ← hname]
      exact ⟨b, env.locals.find?_push_self b, hb⟩
    · rw [lookup_cons_of_ne a hzy] at hz
      obtain ⟨b', hfind, hb'⟩ := h.vars z c hz
      have hne : ρ z ≠ b.name := hname ▸ hr.ne z c hz
      rw [Function.update_of_ne hzy, Function.update_of_ne hzy]
      exact ⟨b', (Locals.find?_push_of_ne hne).trans hfind, hb'⟩
  others {x _ _} hx := by
    have hne : x ≠ b.name := by
      rintro rfl
      rw [hname] at hx
      exact hr.unbound hx
    exact (Locals.find?_push_of_ne hne).trans (h.others hx)

/-- An environment for code with one more alias is one for the code without it. -/
theorem Provides.of_cons {r : Name} {a : Builtin} (hy : Γ.lookup y = none)
    (h : Provides store (Function.update ρ y r) (Function.update σ y w) ((y, a) :: Γ) env) :
    Provides store ρ σ Γ env where
  store_eq := h.store_eq
  resolve := h.resolve
  vars z c hz := by
    have hzy : z ≠ y := by
      rintro rfl
      rw [hy] at hz
      cases hz
    have hvar := h.vars z c ((lookup_cons_of_ne a hzy).trans hz)
    rwa [Function.update_of_ne hzy, Function.update_of_ne hzy] at hvar
  others := h.others

/-- Code is evaluated where the names that are in scope in it stand for their values. -/
def scopeOutlook (known : Bool) (store : Definitions) (ρ : Name → Name) (σ : Name → Node)
    (Γ : List (Name × Builtin)) : Outlook :=
  ⟨known, Provides store ρ σ Γ, Provides.resolve⟩

theorem Provides.returns_var (h : Provides store ρ σ Γ env) {x : Name} {a : Builtin} (tag : Tag)
    (hx : Γ.lookup x = some a) :
    Returns env (fun d => eval d (.ident tag (ρ x))) NoFault (Staging.Shows (σ x)) := by
  obtain ⟨b, hfind, hb⟩ := h.vars x a hx
  refine (returns_found h.resolve (Env.lookup_bound hfind) hb.isPlaceholder rfl tag).mono ?_
  rintro _ rfl
  exact hb

/-- Code stays code where an alias is added. -/
theorem codeFor_cons {r : Name} {v n : Node} (hy : Γ.lookup y = none) (a : Builtin)
    (h : CodeFor (scopeOutlook known store ρ σ Γ) v n) :
    CodeFor (scopeOutlook known store (Function.update ρ y r) (Function.update σ y w) ((y, a) :: Γ)) v n
    where
  becomes hl := h.becomes (Provides.of_cons hy hl)
  literal := h.literal
  isAlias := h.isAlias
  isPlaceholder := h.isPlaceholder
  shows := h.shows

/-! ## The environment of the first run -/

/-- An environment in either mode that holds code for the values of the names in scope, under the names
that they bear in residual code. -/
structure HoldsRenamed (store : Definitions) (names : Name → Prop) (known : Bool) (ρ : Name → Name)
    (σ : Name → Node) (Γ : List (Name × Builtin)) (env : Env) : Prop where
  store_eq : env.store = store
  resolve : env.resolve = known
  vars : ∀ y a, Γ.lookup y = some a → ∃ b, env.locals.find? y = some b ∧ b.rename.getD y = ρ y ∧
    CodeFor (scopeOutlook known store ρ σ Γ) (σ y) b.value
  spelled : ∀ y a, Γ.lookup y = some a →
    names y ∧ (ρ y = y ∨ (∀ k, ¬ names (Env.suffixed y k)) ∧ ∃ k, ρ y = Env.suffixed y k)
  others : Covers Γ env

theorem holdsRenamed_of_isFresh (h : env.IsFresh store) :
    HoldsRenamed store names env.resolve ρ σ [] env where
  store_eq := h.store_eq
  resolve := rfl
  vars y a hy := by cases hy
  spelled y a hy := by cases hy
  others y _ := h.find?_eq_none y

theorem provides_of_isFresh (h : env.IsFresh store) (hresolve : env.resolve = true) :
    Provides store ρ σ [] env where
  store_eq := h.store_eq
  resolve := hresolve
  vars y a hy := by cases hy
  others _ := h.find?_eq_none _

namespace HoldsRenamed

/-- A name that is taken but not in scope is that of a definition. -/
theorem isTaken_eq (h : HoldsRenamed store names known ρ σ Γ env) (hy : Γ.lookup y = none) :
    env.isTaken y = (store.lookup y).isSome := by
  rw [Env.isTaken, Locals.contains, h.others y hy, h.store_eq, Definitions.contains_eq]
  rfl

/-- An alias keeps its name, or bears a suffixed form that no other alias has. -/
theorem residualName_eq (h : HoldsRenamed store names known ρ σ Γ env) (hy : CanBind store names Γ y) :
    residualName env y = y ∧ store.lookup y = none ∧ Builtin.ofName? y = none ∨
    (∀ k, ¬ names (Env.suffixed y k)) ∧ ∃ k, residualName env y = Env.suffixed y k ∧
      store.lookup (Env.suffixed y k) = none := by
  rcases hy.free with ⟨hdef, hbuiltin⟩ | ⟨hdef, hsuffix⟩
  · have hfree : env.isTaken y = false := by
      rw [h.isTaken_eq hy.unbound, hdef]
      rfl
    refine .inl ⟨?_, hdef, hbuiltin⟩
    rw [residualName, Env.freshName_of_free hfree, Option.getD_none]
  · obtain ⟨k, hk, hfree, -⟩ := Env.freshName_of_taken ((h.isTaken_eq hy.unbound).trans hdef)
    refine .inr ⟨hsuffix, k, by rw [residualName, hk, Option.getD_some], ?_⟩
    rw [Env.isTaken, Bool.or_eq_false_iff, h.store_eq, Definitions.contains_eq] at hfree
    exact Option.isNone_iff_eq_none.1 (Option.isSome_eq_false_iff.1 hfree.2)

theorem isFree_residualName (h : HoldsRenamed store names known ρ σ Γ env)
    (hy : CanBind store names Γ y) : IsFree store ρ Γ (residualName env y) where
  ne z a hz := by
    have hzy : z ≠ y := by
      rintro rfl
      rw [hy.unbound] at hz
      cases hz
    obtain ⟨hname, hρ⟩ := h.spelled z a hz
    -- Of the two names, each is as it was written or a suffixed form.
    rcases h.residualName_eq hy with ⟨hr, -⟩ | ⟨hsuffix, k, hr, -⟩ <;>
      rcases hρ with hρ | ⟨hsuffix', j, hρ⟩ <;> rw [hr, hρ] <;> rintro heq
    · exact hzy heq
    · exact hsuffix' j (heq ▸ hy.name)
    · exact hsuffix k (heq ▸ hname)
    · exact hzy (Env.suffixed_left_injective heq)
  unbound {w a} hmeans := by
    have hdef : store.lookup (residualName env y) = none ∧
        Builtin.ofName? (residualName env y) = none := by
      rcases h.residualName_eq hy with ⟨hr, hdef⟩ | ⟨-, k, hr, hdef⟩
      · rwa [hr]
      · exact hr ▸ ⟨hdef, Env.ofName?_suffixed y k⟩
    cases hmeans with
    | defined hl =>
      rw [hdef.1] at hl
      cases hl
    | builtin _ hb =>
      rw [hdef.2] at hb
      cases hb

theorem push (h : HoldsRenamed store names known ρ σ Γ env) (hy : CanBind store names Γ y) {m : Node}
    (hm : CodeFor (scopeOutlook known store ρ σ Γ) w m) (a : Builtin) (transparent : Bool) :
    HoldsRenamed store names known (Function.update ρ y (residualName env y)) (Function.update σ y w)
      ((y, a) :: Γ) (env.push ⟨y, m, transparent, env.freshName y⟩) where
  store_eq := h.store_eq
  resolve := h.resolve
  vars z c hz := by
    by_cases hzy : z = y
    · subst hzy
      rw [Function.update_self, Function.update_self]
      exact ⟨_, env.locals.find?_push_self _, rfl, codeFor_cons hy.unbound a hm⟩
    · rw [lookup_cons_of_ne a hzy] at hz
      obtain ⟨b, hfind, hname, hb⟩ := h.vars z c hz
      rw [Function.update_of_ne hzy, Function.update_of_ne hzy]
      exact ⟨b, (Locals.find?_push_of_ne hzy).trans hfind, hname, codeFor_cons hy.unbound a hb⟩
  spelled z c hz := by
    by_cases hzy : z = y
    · subst hzy
      rw [Function.update_self]
      refine ⟨hy.name, ?_⟩
      rcases h.residualName_eq hy with ⟨hr, -⟩ | ⟨hsuffix, k, hr, -⟩
      · exact .inl hr
      · exact .inr ⟨hsuffix, k, hr⟩
    · rw [lookup_cons_of_ne a hzy] at hz
      rw [Function.update_of_ne hzy]
      exact h.spelled z c hz
  others := h.others.push a ⟨y, m, transparent, env.freshName y⟩

/-- A name in scope becomes its code where it is resolved or transparent, and stays otherwise. -/
theorem returns_var (h : HoldsRenamed store names known ρ σ Γ env) {x : Name} {a : Builtin} (tag : Tag)
    (hx : Γ.lookup x = some a) :
    Returns env (fun d => eval d (.ident tag x)) NoFault
      (CodeFor (scopeOutlook known store ρ σ Γ) (σ x)) := by
  obtain ⟨b, hfind, hname, hb⟩ := h.vars x a hx
  have hstays (hknown : known = false) (t : Tag) :
      CodeFor (scopeOutlook known store ρ σ Γ) (σ x) (.ident t (ρ x)) :=
    codeFor_ident t hknown fun hl => Provides.returns_var hl t hx
  refine Returns.succ (returns_env.bind fun _ heq => ?_)
  subst heq
  simp only [Env.lookup_bound hfind, Found.isPlaceholder, hb.isPlaceholder, Bool.not_false,
    Bool.true_and, h.resolve, Found.isTransparent, Found.rename?]
  split
  · exact returns_pure hb
  · rename_i hkept
    rw [Bool.or_eq_true, not_or, Bool.not_eq_true] at hkept
    rw [← hname] at hstays
    cases hrename : b.rename with
    | some other =>
      rw [hrename] at hstays
      exact (returns_tagAt _).bind fun t _ => returns_pure (hstays hkept.1 t)
    | none =>
      rw [hrename] at hstays
      exact returns_pure (hstays hkept.1 tag)

/-- A name that is not bound becomes what it stands for, or stays. -/
theorem returns_unbound (h : HoldsRenamed store names known ρ σ Γ env) {x : Name} {a : Builtin}
    (tag : Tag) (hx : Γ.lookup x = none) (hw : Meaning store x w a) :
    Returns env (fun d => eval d (.ident tag x)) NoFault
      (CodeFor (scopeOutlook known store ρ σ Γ) w) := by
  cases known with
  | true =>
    exact (hw.returns tag h.store_eq (h.others x hx) h.resolve).mono fun _ hn => hn.codeFor
  | false =>
    have hstays : CodeFor (scopeOutlook false store ρ σ Γ) w (.ident tag x) :=
      codeFor_ident tag rfl fun {_} (hl : Provides store ρ σ Γ _) =>
        hw.returns tag hl.store_eq (hl.others hw) hl.resolve
    refine Returns.succ (returns_env.bind fun _ heq => ?_)
    subst heq
    cases hw with
    | @defined d ltag l hl =>
      have hlookup : env.lookup x = some (.defined d (.lit ltag l)) := by
        rw [Env.lookup, h.others x hx, h.store_eq, hl]
      simp only [hlookup, h.resolve, Found.isTransparent, Bool.or_self, Bool.and_false,
        Bool.false_eq_true, if_false, Found.rename?]
      exact returns_pure hstays
    | @builtin b hdef hb =>
      have hlookup : env.lookup x = some (.builtin b) := by
        rw [Env.lookup, h.others x hx, h.store_eq, hdef, hb]
        rfl
      simp only [hlookup, h.resolve, Found.isTransparent, Bool.or_self, Bool.and_false,
        Bool.false_eq_true, if_false, Found.rename?]
      exact returns_pure hstays

end HoldsRenamed

/-- The setting of both modes. All is known in the first stage if it resolves names. -/
def modes (store : Definitions) (names : Name → Prop) : Setting store names where
  Host σ Γ o env :=
    ∃ known ρ, o = scopeOutlook known store ρ σ Γ ∧ HoldsRenamed store names known ρ σ Γ env
  kept := by
    rintro σ Γ _ env ⟨known, ρ, rfl, h⟩ hresolve
    exact h.resolve.symm.trans hresolve
  var := by
    rintro σ Γ _ env x a tag ⟨known, ρ, rfl, h⟩ hx
    exact h.returns_var tag hx
  unbound := by
    rintro σ Γ _ env x w a tag ⟨known, ρ, rfl, h⟩ hx hw
    exact h.returns_unbound tag hx hw
  bind := by
    rintro σ Γ _ env y w m b transparent ⟨known, ρ, rfl, h⟩ hy hm
    refine ⟨_, ⟨known, _, rfl, h.push hy hm b transparent⟩, fun hl hname hb => ?_, fun hr _ _ hn => ?_⟩
    · exact Provides.push hl (h.isFree_residualName hy) hname hb b
    · exact (hn.shows (h.resolve.symm.trans hr)).codeFor

end Modes

open Modes Staging in
/-- The two modes agree. Over definitions that are literals, let an expression pass the checker whose
aliases bear no suffixed form of the name of a linked one. In either mode it evaluates to a residual
expression, and where names are resolved to a value; and the residual expression evaluates to that
value, up to tags, where names are resolved. -/
theorem eval_residual_eq_eval {store : Definitions} (hstore : store.AreLiterals) {names : Name → Prop}
    {n ty : Node} {depth : Nat} {s s₁ s₂ t : Machine} (hs : s.env.IsFresh store)
    (hn : Named s.env.links names n) (hcheck : (check depth n).runOn s = (.ok ty, t))
    (hs₁ : s₁.env.IsFresh store) (hs₂ : s₂.env.IsFresh store) (hresolve₂ : s₂.env.resolve = true) :
    ∃ residual v t₁ t₂ depth', (∀ d ≥ depth',
      (eval d n).runOn s₁ = (.ok residual, t₁) ∧ (eval d n).runOn s₂ = (.ok v, t₂)) ∧
      ∀ {s₃ : Machine}, s₃.env.IsFresh store → s₃.env.resolve = true →
        ∃ v' t₃ depth'', v'.bare = v.bare ∧
          ∀ d ≥ depth'', (eval d residual).runOn s₃ = (.ok v', t₃) := by
  obtain ⟨⟨a, -, -, hstages⟩, -⟩ :=
    (hn.checked (S := modes store names) hstore (judges_of_isFresh hs)).of_run
      (fun _ _ hle => approximates_check hle _) depth rfl hcheck
  have hσ : Realizes (fun _ => .unknown Selection.noTag) [] := by
    intro y a hy
    cases hy
  obtain ⟨w, -, hcode⟩ := hstages hσ
  obtain ⟨residual, t₁, depth₁, hresidual, hrun₁⟩ :=
    (hcode ⟨_, id, rfl, holdsRenamed_of_isFresh hs₁⟩).exists_run
  obtain ⟨v, t₂, depth₂, hv, hrun₂⟩ := (hcode ⟨_, id, rfl, holdsRenamed_of_isFresh hs₂⟩).exists_run
  refine ⟨residual, v, t₁, t₂, max depth₁ depth₂, fun d hd => ?_, fun {s₃} hs₃ hresolve₃ => ?_⟩
  · exact ⟨hrun₁ d (by omega), hrun₂ d (by omega)⟩
  · obtain ⟨v', t₃, depth₃, hv', hrun₃⟩ :=
      (hresidual.becomes (provides_of_isFresh hs₃ hresolve₃)).exists_run
    exact ⟨v', t₃, depth₃, hv'.bare.trans (hv.shows hresolve₂).bare.symm, hrun₃⟩

/-- `y = 5` -/
def fiveDefinitions : Definitions := ⟨[("y", .lit ⟨0, .builtin⟩ (.number 5))]⟩

theorem areLiterals_fiveDefinitions : fiveDefinitions.AreLiterals := by
  intro x d v h
  obtain ⟨entry, hentry, rfl⟩ := Definitions.mem_of_lookup h
  rw [List.mem_singleton.1 hentry]
  rfl

/-- `{ y = y + 1; z := { b = y * 2; b + 1 }; b = [z, y]; if z < y then b else [y] }`, where the alias
`y` is linked to the definition -/
def retakeProgram : Node :=
  .block ⟨1, .builtin⟩
    [.assign ⟨2, .builtin⟩ (.ident ⟨3, .builtin⟩ "y")
      (.binOp ⟨4, .builtin⟩ .add (.ident ⟨5, .builtin⟩ "y") (.lit ⟨6, .builtin⟩ (.number 1)))
      false (some 0),
    .assign ⟨7, .builtin⟩ (.ident ⟨8, .builtin⟩ "z")
      (.block ⟨9, .builtin⟩
        [.assign ⟨10, .builtin⟩ (.ident ⟨11, .builtin⟩ "b")
          (.binOp ⟨12, .builtin⟩ .mul (.ident ⟨13, .builtin⟩ "y") (.lit ⟨14, .builtin⟩ (.number 2)))
          false none,
        .binOp ⟨15, .builtin⟩ .add (.ident ⟨16, .builtin⟩ "b") (.lit ⟨17, .builtin⟩ (.number 1))])
      true none,
    .assign ⟨18, .builtin⟩ (.ident ⟨19, .builtin⟩ "b")
      (.list ⟨20, .builtin⟩ [.ident ⟨21, .builtin⟩ "z", .ident ⟨22, .builtin⟩ "y"]) false none,
    .ifElse ⟨23, .builtin⟩
      (.binOp ⟨24, .builtin⟩ .lt (.ident ⟨25, .builtin⟩ "z") (.ident ⟨26, .builtin⟩ "y"))
      [.ident ⟨27, .builtin⟩ "b"] [.list ⟨28, .builtin⟩ [.ident ⟨29, .builtin⟩ "y"]]]

open Staging in
theorem named_retakeProgram (links : Links) : Named links ('#' ∉ ·.toList) retakeProgram := by
  have hlist : ∀ {items : List Node}, (∀ n ∈ items, ∃ tag x, n = .ident tag x) →
      ∀ n ∈ items, Named links ('#' ∉ ·.toList) n := by
    intro items h n hn
    obtain ⟨tag, x, rfl⟩ := h n hn
    exact .ident tag x
  have hbind {y : Name} {value : Node} {transparent : Bool} {link : Option DefId} {n : Node}
      {rest : List Node} (tag ytag : Tag) (hy : '#' ∉ y.toList)
      (hvalue : Named links ('#' ∉ ·.toList) value)
      (hrest : NamedSeq links ('#' ∉ ·.toList) (n :: rest)) :
      NamedSeq links ('#' ∉ ·.toList)
        (.assign tag (.ident ytag y) value transparent link :: n :: rest) :=
    .bind tag ytag hy (.inr fun k hk => hk (Env.mem_suffixed _ k)) hvalue hrest (List.cons_ne_nil _ _)
  refine .block _ (hbind _ _ (by decide) (.binOp _ (by decide) (.ident _ _) (.lit _ _)) ?_)
  refine hbind _ _ (by decide) (.block _ ?_) ?_
  · exact hbind _ _ (by decide) (.binOp _ (by decide) (.ident _ _) (.lit _ _))
      (.cons (.binOp _ (by decide) (.ident _ _) (.lit _ _)) .nil)
  refine hbind _ _ (by decide) (.list _ (hlist (by simp))) (.cons (.ifElse _ ?_ ?_ ?_) .nil)
  · exact .binOp _ (by decide) (.ident _ _) (.ident _ _)
  · exact .cons (.ident _ _) .nil
  · exact .cons (.list _ (hlist (by simp))) .nil

/-- The alias `y` is renamed, `z` is put in where `b` stands for something else than in its block, and
the condition is not known where names are kept. -/
theorem eval_residual_eq_eval_retake :
    ∃ ty t, (check 12 retakeProgram).runOn (freshMachine fiveDefinitions true) = (.ok ty, t) ∧
      ∃ residual v t₁ t₂ depth', (∀ d ≥ depth',
        (eval d retakeProgram).runOn (freshMachine fiveDefinitions false) = (.ok residual, t₁) ∧
        (eval d retakeProgram).runOn (freshMachine fiveDefinitions true) = (.ok v, t₂)) ∧
        ∃ v' t₃ depth'', v'.bare = v.bare ∧ ∀ d ≥ depth'',
          (eval d residual).runOn (freshMachine fiveDefinitions true) = (.ok v', t₃) := by
  have hok : ((check 12 retakeProgram).runOn (freshMachine fiveDefinitions true)).1.isOk = true := by
    decide +kernel
  obtain ⟨ty, t, hcheck⟩ := Pass.runOn_of_isOk hok
  obtain ⟨residual, v, t₁, t₂, depth', hruns, hagree⟩ := eval_residual_eq_eval
    areLiterals_fiveDefinitions (isFresh_freshMachine fiveDefinitions true)
    (named_retakeProgram _) hcheck (isFresh_freshMachine fiveDefinitions false)
    (isFresh_freshMachine fiveDefinitions true) rfl
  exact ⟨ty, t, hcheck, residual, v, t₁, t₂, depth', hruns,
    hagree (isFresh_freshMachine fiveDefinitions true) rfl⟩

/-- `{ y = 5; y#0 = 7; y + y#0 }`, where the alias `y` is linked to the definition -/
def collidingProgram : Node :=
  .block ⟨1, .builtin⟩
    [.assign ⟨2, .builtin⟩ (.ident ⟨3, .builtin⟩ "y") (.lit ⟨4, .builtin⟩ (.number 5)) false (some 0),
    .assign ⟨5, .builtin⟩ (.ident ⟨6, .builtin⟩ "y#0") (.lit ⟨7, .builtin⟩ (.number 7)) false none,
    .binOp ⟨8, .builtin⟩ .add (.ident ⟨9, .builtin⟩ "y") (.ident ⟨10, .builtin⟩ "y#0")]

/-- An alias of the name `y#0` collides with the alias `y`, which bears this name in residual code. The
block is a number, and evaluates to `12`; the residual block, which is `{ y#0 = 5; y#0 = 7; y#0 + y#0 }`,
evaluates to `14`. -/
theorem residual_aliases_collide :
    let result (n : Node) (resolve : Bool) : Option Node :=
      ((eval 12 n).runOn (freshMachine fiveDefinitions resolve)).1.toOption
    ((check 12 collidingProgram).runOn (freshMachine fiveDefinitions true)).1.isOk = true ∧
    ((result collidingProgram true).bind Node.number?).map Float.toBits = some (12 : Float).toBits ∧
    (((result collidingProgram false).bind (result · true)).bind Node.number?).map Float.toBits =
      some (14 : Float).toBits := by
  refine ⟨?_, ?_, ?_⟩
  · decide +kernel
  · decide +kernel
  · decide +kernel

end Residual
