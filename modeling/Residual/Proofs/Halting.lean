/-
Why the checker ends on layered nodes, one rule for each kind of node. Each step goes to a part of the
node, to a definition that was not being checked before, or to a lower layer: where the value of a field
is checked, it comes from an instance that was evaluated in a lower layer, and where a type is checked,
it is of layer 0. A definition that is a function is entered only after the type of its parameter has
been checked; that type is of layer 0 and names no function.
-/
import Mathlib.Algebra.Order.BigOperators.Group.List
import Mathlib.Algebra.Order.Group.Nat
import Residual.Proofs.Layers
import Residual.Proofs.Preservation

namespace Residual

namespace Layers

open Pass

/-! ## Environments of the checker -/

/-- Definitions are of the layers that their names rank at. -/
def AreLayered (r : Ranking) (store : Definitions) : Prop :=
  ∀ {x d v}, store.lookup x = some (d, v) → Tame r (r.rank x) v

/-- An environment of the checker, with at most `K` definitions that are not being checked: the locals
stand for their types. -/
structure IsCheckerEnv (r : Ranking) (store : Definitions) (K : Nat) (env : Env) : Prop where
  store_eq : env.store = store
  pending_le : Env.pending store env ≤ K
  locals : ∀ b ∈ env.locals.bindings, ∃ t ty, b.value = .selfType t ty ∧ Flat r ty
  renames : ∀ b ∈ env.locals.bindings, b.rename = none

variable {r : Ranking} {store : Definitions} {K : Nat} {env : Env}

namespace IsCheckerEnv

theorem tamed (h : IsCheckerEnv r store K env) (hstore : AreLayered r store) : Tamed r env where
  store hx := hstore (h.store_eq ▸ hx)
  locals b hb := by
    obtain ⟨t, ty, hvalue, -⟩ := h.locals b hb
    rw [hvalue]
    exact .inl rfl
  renames b hb x hx := by
    rw [h.renames b hb] at hx
    cases hx

theorem push (h : IsCheckerEnv r store K env) {x : Name} {ty : Node} (t : Tag) (transparent : Bool)
    (hty : Flat r ty) : IsCheckerEnv r store K (env.push ⟨x, .selfType t ty, transparent, none⟩) where
  store_eq := h.store_eq
  pending_le := h.pending_le
  locals := List.forall_mem_cons.2 ⟨⟨t, ty, rfl, hty⟩, h.locals⟩
  renames := List.forall_mem_cons.2 ⟨rfl, h.renames⟩

theorem globals (h : IsCheckerEnv r store K env) :
    IsCheckerEnv r store K { env with locals := .empty } where
  store_eq := h.store_eq
  pending_le := h.pending_le
  locals := List.forall_mem_nil _
  renames := List.forall_mem_nil _

theorem resolve (h : IsCheckerEnv r store K env) (b : Bool) :
    IsCheckerEnv r store K { env with resolve := b } :=
  ⟨h.store_eq, h.pending_le, h.locals, h.renames⟩

theorem enterCall (h : IsCheckerEnv r store K env) (f : Node) :
    IsCheckerEnv r store (Env.pending store (env.enterCall f)) (env.enterCall f) :=
  ⟨h.store_eq, Nat.le_refl _, h.locals, h.renames⟩

theorem mono {K' : Nat} (h : IsCheckerEnv r store K env) (hle : K ≤ K') : IsCheckerEnv r store K' env :=
  { h with pending_le := Nat.le_trans h.pending_le hle }

end IsCheckerEnv

/-- The checker ends, with a type unless there is a fault. -/
def Checks (r : Ranking) (store : Definitions) (K : Nat) (n : Node) : Prop :=
  ∀ {env : Env}, IsCheckerEnv r store K env → Returns env (fun d => check d n) Ordinary (Flat r)

theorem Checks.mono {K' : Nat} {n : Node} (h : Checks r store K n) (hle : K' ≤ K) :
    Checks r store K' n := fun henv => h (henv.mono hle)

/-! ## Sequences -/

section

variable {n : Node} {items : List Node}

theorem returns_builtin {F : Fault → Prop} (b : Builtin) :
    Returns env (fun _ => Pass.builtin b) F (Flat r) :=
  Check.returns_builtin b fun t => tame_builtin t b

theorem leads_checkItem (h : Checks r store K n) (henv : IsCheckerEnv r store K env) :
    Leads env (fun d => Check.checkItem (check d) n) Ordinary
      fun ty e => Flat r ty ∧ Opened env e ∧ IsCheckerEnv r store K e := by
  refine (h henv).leads fun ty hty => ?_
  cases n.boundName? with
  | none => exact leads_pure ⟨hty, .same, henv⟩
  | some x =>
    refine (Check.returns_placeholder _ _).leads ?_
    rintro _ ⟨t, rfl⟩
    exact Leads.push (leads_pure ⟨hty, .push _ .same, henv.push t false hty⟩)

theorem leads_checkItems : ∀ {items : List Node} {env : Env}, (∀ n ∈ items, Checks r store K n) →
    IsCheckerEnv r store K env →
    Leads env (fun d => Check.checkItems (check d) items) Ordinary
      fun _ e => Opened env e ∧ IsCheckerEnv r store K e
  | [], _, _, henv => leads_pure ⟨.same, henv⟩
  | n :: items, env, h, henv => by
    obtain ⟨hn, hitems⟩ := List.forall_mem_cons.1 h
    refine Leads.bind (leads_checkItem hn henv) ?_
    rintro _ e ⟨-, hopen, henv'⟩
    refine (leads_checkItems hitems henv').mono ?_
    rintro _ e' ⟨hopen', henv''⟩
    exact ⟨hopen.trans hopen', henv''⟩

theorem returns_checkSeq (h : ∀ n ∈ items, Checks r store K n) (henv : IsCheckerEnv r store K env)
    (site : Span) :
    Returns env (fun d => Check.checkSeq (check d) items site) Ordinary (Flat r) := by
  unfold Check.checkSeq
  cases hlast : items.getLast? with
  | none => exact returns_throw rfl
  | some last =>
    refine Leads.scope (Leads.bind (leads_checkItems (fun n hn => h n (List.dropLast_subset _ hn))
      henv) ?_)
    rintro _ e ⟨hopen, henv'⟩
    refine (leads_checkItem (h last (List.mem_of_getLast? hlast)) henv').mono ?_
    rintro ty e' ⟨hty, hopen', -⟩
    exact ⟨hty, hopen.trans hopen'⟩

/-! ## Types -/

theorem returns_denoted (hstore : AreLayered r store) (h : Checks r store K n) (hn : Flat r n)
    (henv : IsCheckerEnv r store K env) :
    Returns env (fun d => Check.denoted (eval d) (check d) n) Ordinary (Flat r) :=
  Check.returns_denoted ((h henv).mono fun _ _ => trivial)
    (hn.evals ((henv.tamed hstore).resolve true))

theorem returns_typeExpr (hstore : AreLayered r store) (h : Checks r store K n) (hn : Flat r n)
    (henv : IsCheckerEnv r store K env) :
    Returns env (fun d => Check.typeExpr (eval d) (check d) n) Ordinary (Flat r) := by
  refine (returns_denoted hstore h hn henv).bind fun ty hty => ?_
  split
  · exact returns_pure hty
  · exact returns_throw rfl

theorem returns_declaredType (hstore : AreLayered r store) (h : Checks r store K n) (hn : Flat r n)
    (henv : IsCheckerEnv r store K env) :
    Returns env (fun d => Check.declaredType (eval d) (check d) n) Ordinary (Flat r) := by
  refine (returns_denoted hstore h hn henv).bind fun ty hty => ?_
  split
  · exact returns_pure hty
  · exact returns_builtin .any

/-- A field may be void, where it refers back to its record. -/
theorem returns_checkFieldTypes (hstore : AreLayered r store) (henv : IsCheckerEnv r store K env)
    {fields : List (Decl Node)} (h : ∀ d ∈ fields, Checks r store K d.ty)
    (hflat : ∀ d ∈ fields, Flat r d.ty) :
    Returns env (fun d => fields.forM (Check.checkFieldType (eval d) (check d))) Ordinary
      fun _ => True :=
  Check.returns_checkFieldTypes
    (fun d hd => (returns_typeExpr hstore (h d hd) (hflat d hd) henv).mono fun _ _ => trivial)
    restores_eval restores_check

/-! ## Branches -/

/-- An arm of a branch: a type, or an ordinary fault. -/
def Arm (r : Ranking) : Except Fault Node → Prop
  | .ok ty => Flat r ty
  | .error f => Ordinary f

theorem returns_join {arms : List (Except Fault Node × Span)} (site : Span)
    (h : ∀ arm ∈ arms, Arm r arm.1) :
    Returns env (fun _ => Check.join site arms) Ordinary (Flat r) := by
  unfold Check.join
  rcases Check.knownTypes_mem arms with ⟨f, hf, arm, harm, heq⟩ | ⟨known, hknown, hall⟩
  · have hord := h arm harm
    rw [heq] at hord
    rw [hf]
    exact Returns.bind (returns_throw (P := fun _ => False) hord) fun _ hfalse => hfalse.elim
  · rw [hknown]
    refine (returns_pure (P := (· = known)) rfl : Returns env (fun _ => (liftM (Except.ok known) :
      Pass (List (Node × Span)))) Ordinary (· = known)).bind fun known' heq => ?_
    subst heq
    match known', hall with
    | [], _ => exact returns_throw rfl
    | (first, firstSite) :: others, hall =>
      simp only []
      split
      · exact returns_throw rfl
      · exact returns_pure (h _ (hall (first, firstSite) List.mem_cons_self))

theorem returns_arm (h : ∀ n ∈ items, Checks r store K n) (henv : IsCheckerEnv r store K env)
    (site : Span) :
    Returns env (fun d => attempt (Check.checkSeq (check d) items site)) Ordinary (Arm r) := by
  have hrestores d := Check.restores_checkSeq (restores_check d) items site
  refine ((returns_checkSeq h henv site).attempt hrestores).mono fun result hr => ?_
  cases result <;> exact hr

end

/-! ## Nodes -/

section

variable {k : Nat} {n : Node} {items : List Node}

theorem returns_expect (expected found : Node) (site : Span) :
    Returns env (fun _ => Check.expect expected found site) Ordinary fun _ => True := by
  unfold Check.expect
  split
  · exact returns_pure trivial
  · exact returns_throw rfl

theorem returns_checkItemsAgainst (henv : IsCheckerEnv r store K env) (expected : Node) :
    ∀ {items : List Node}, (∀ n ∈ items, Checks r store K n) →
    Returns env (fun d => Check.checkItemsAgainst (check d) expected items) Ordinary fun _ => True
  | [], _ => returns_pure trivial
  | n :: items, h => by
    obtain ⟨hn, hitems⟩ := List.forall_mem_cons.1 h
    refine (hn henv).bind fun ty _ => (returns_expect expected ty n.span).bind fun _ _ => ?_
    exact returns_checkItemsAgainst henv expected hitems

theorem checks_list (tag : Tag) (h : ∀ n ∈ items, Checks r store K n) :
    Checks r store K (.list tag items) := by
  intro env henv
  refine Returns.succ ?_
  cases items with
  | nil => exact returns_builtin .list
  | cons first others =>
    obtain ⟨hfirst, hothers⟩ := List.forall_mem_cons.1 h
    exact (hfirst henv).bind fun ty _ => (returns_checkItemsAgainst henv ty hothers).bind
      fun _ _ => returns_builtin .list

theorem checks_record (hstore : AreLayered r store) {fields : List (Decl Node)} (tag : Tag)
    (id : TypeId) (range : Option Range) (h : ∀ d ∈ fields, Checks r store K d.ty)
    (hflat : ∀ d ∈ fields, Flat r d.ty) : Checks r store K (.record tag id fields range) := by
  intro env henv
  exact Returns.succ ((returns_checkFieldTypes hstore henv h hflat).bind
    fun _ _ => returns_builtin .type)

theorem checks_fnType (hstore : AreLayered r store) {dom cod : Node} (tag : Tag) (id : TypeId)
    (hdom : Checks r store K dom) (hcod : Checks r store K cod) (hflat : Flat r dom ∧ Flat r cod) :
    Checks r store K (.fnType tag id dom cod) := by
  intro env henv
  refine Returns.succ ((returns_typeExpr hstore hdom hflat.1 henv).bind fun _ _ => ?_)
  exact (returns_typeExpr hstore hcod hflat.2 henv).bind fun _ _ => returns_builtin .type

theorem checks_assign {target value : Node} (tag : Tag) (transparent : Bool) (link : Option DefId)
    (h : Checks r store K value) : Checks r store K (.assign tag target value transparent link) := by
  intro env henv
  suffices hstep : Returns env (fun d => Check.checkAlias (check d) tag target value link) Ordinary
      (Flat r) from Returns.succ hstep
  unfold Check.checkAlias
  cases target.ident? with
  | none => exact returns_throw rfl
  | some x =>
    refine returns_env.bind fun _ heq => ?_
    subst heq
    cases env.lookup x with
    | none => exact h henv
    | some found =>
      simp only []
      split
      · exact h henv
      · exact returns_throw rfl

/-- The body of a function is checked with one more function being checked. -/
theorem returns_checkFunc (hstore : AreLayered r store) {param : Decl Node} {body : List Node}
    {tag : Tag} (henv : IsCheckerEnv r store K env) (hty : Checks r store K param.ty)
    (hflat : Flat r param.ty)
    (hbody : env.isOnStack (.func tag param body) = false → ∀ n ∈ body,
      Checks r store (Env.pending store (env.enterCall (.func tag param body))) n) :
    Returns env (fun d => Check.checkFunc (eval d) (check d) tag param body) Ordinary (Flat r) := by
  refine Check.returns_checkFunc (fun _ => rfl) (returns_declaredType hstore hty hflat henv)
    (fun ty t hflat' hstack => ?_) fun t _ _ _ hdom hcod => tame_fnType t _ hdom hcod
  exact returns_checkSeq (hbody hstack)
    (((henv.enterCall (.func tag param body)).push t false hflat').resolve false) tag.span

theorem Layered.func_parts {tag : Tag} {param : Decl Node} {body : List Node}
    (h : Layered r k (.func tag param body)) :
    0 < k ∧ Flat r param.ty ∧ ∀ n ∈ body, Layered r k n := by
  cases h with
  | func _ hty hbelow hbody => exact ⟨Nat.succ_pos _, ⟨hty, hbelow⟩, hbody⟩

/-- The value of a definition. If it is no function it is being checked from then on; a function is,
once the type of its parameter has been checked. -/
theorem returns_check_definition (hstore : AreLayered r store) {x : Name} {d : DefId} {v : Node}
    (hdef : store.lookup x = some (d, v)) (hx : k = 0 → r.rank x = 0) (henv : IsCheckerEnv r store K env)
    (hflat : 0 < k → ∀ {n}, Flat r n → Checks r store K n)
    (hless : ∀ K' < K, ∀ {k n}, Layered r k n → Checks r store K' n) :
    Returns env (fun d => if v.isFunc then check d v else Check.checkDefined (check d) v) Ordinary
      (Flat r) := by
  have hdown (hstack : env.isOnStack v = false) : Env.pending store (env.enterCall v) < K :=
    Nat.lt_of_lt_of_le (Env.pending_enterCall_lt hdef hstack) henv.pending_le
  have hlayered := (hstore hdef).layered
  cases hfunc : v.isFunc with
  | true =>
    simp only [if_true]
    cases v with
    | func tag param body =>
      -- the type of the parameter is checked before the function is on the stack, so only its layer
      -- keeps it from going round
      obtain ⟨hpos, hty, hbody⟩ := hlayered.func_parts
      have hk : 0 < k := by
        by_contra hk
        have := hx (by omega)
        omega
      exact Returns.succ (returns_checkFunc hstore henv (hflat hk hty) hty
        fun hstack n hn => hless _ (hdown hstack) (hbody n hn))
    | _ => cases hfunc
  | false =>
    simp only [Bool.false_eq_true, if_false]
    refine returns_env.bind fun _ heq => ?_
    subst heq
    cases hstack : env.isOnStack v with
    | true =>
      simp only [if_true]
      exact returns_throw rfl
    | false =>
      simp only [Bool.false_eq_true, if_false]
      exact Returns.under (hless _ (hdown hstack) hlayered (henv.enterCall v)) (Guard.lawful_call _)

/-- A name has the type it stands for, or leads to a definition. -/
theorem checks_ident (hstore : AreLayered r store) {x : Name} (tag : Tag)
    (hx : k = 0 → r.rank x = 0) (hflat : 0 < k → ∀ {n}, Flat r n → Checks r store K n)
    (hless : ∀ K' < K, ∀ {k n}, Layered r k n → Checks r store K' n) :
    Checks r store K (.ident tag x) := by
  intro env henv
  refine Returns.succ (returns_env.bind fun _ heq => ?_)
  subst heq
  cases hlookup : env.lookup x with
  | none => exact returns_throw rfl
  | some found =>
    cases found with
    | bound b =>
      obtain ⟨hmem, -⟩ := Env.mem_of_lookup_bound hlookup
      obtain ⟨t, ty, hvalue, hty⟩ := henv.locals b hmem
      refine (returns_pure (P := (· = b.value)) rfl).bind fun v hv => ?_
      rw [hv, hvalue]
      exact Returns.under (Returns.succ (returns_pure hty)) Guard.lawful_globals
    | builtin b =>
      have hvalue : Returns env (fun _ => Pass.valueOf (.builtin b)) Ordinary
          fun v => ∃ t, v = .builtin t b :=
        (returns_tagAt _).bind fun t _ => returns_pure ⟨t, rfl⟩
      refine hvalue.bind ?_
      rintro _ ⟨t, rfl⟩
      exact Returns.under (Returns.succ (returns_builtin .type)) Guard.lawful_globals
    | defined d v =>
      refine (returns_pure (P := (· = v)) rfl).bind fun v' hv' => ?_
      subst hv'
      exact Returns.under (returns_check_definition hstore
        (henv.store_eq ▸ Env.lookup_of_defined hlookup) hx henv.globals hflat hless)
        Guard.lawful_globals

theorem checks_binOp {op : Operator} {lhs rhs : Node} (tag : Tag) (hop : op ≠ .dot)
    (hl : Checks r store K lhs) (hr : Checks r store K rhs) :
    Checks r store K (.binOp tag op lhs rhs) := by
  intro env henv
  suffices hstep : Returns env (fun d => Check.checkBinOp (eval d) (check d) tag op lhs rhs)
      Ordinary (Flat r) from Returns.succ hstep
  simp only [Check.checkBinOp, hop, if_false]
  have hoperand {n : Node} (h : Checks r store K n) :
      Returns env (fun d => Check.checkOperand (check d) op n) Ordinary fun _ => True := by
    refine (h henv).bind fun ty _ => ?_
    split
    · exact returns_pure trivial
    · exact returns_throw rfl
  exact (hoperand hl).bind fun _ _ => (hoperand hr).bind fun _ _ => returns_builtin _

theorem Flat.fieldDecl? {tag : Tag} {id : TypeId} {fields : List (Decl Node)} {range : Option Range}
    {x : Name} {decl : Decl Node} (h : Flat r (.record tag id fields range))
    (hdecl : Node.fieldDecl? fields x = some decl) : Flat r decl.ty := by
  have hmem := List.mem_of_find?_eq_some hdecl
  cases h.layered with
  | record _ _ _ hty hbelow => exact ⟨hty decl hmem, hbelow decl hmem⟩

/-- The value of a field is of a lower layer, and so is its declared type. -/
theorem checks_dot (hstore : AreLayered r store) {lhs : Node} (tag : Tag) (rhs : Node)
    (h : Checks r store K lhs) (hlhs : Tame r k lhs)
    (hlower : ∀ j < k + 1, ∀ {m}, Layered r j m → Checks r store K m) :
    Checks r store K (.binOp tag .dot lhs rhs) := by
  intro env henv
  suffices hstep : Returns env (fun d => Check.checkDot (eval d) (check d) tag lhs rhs) Ordinary
      (Flat r) from Returns.succ hstep
  unfold Check.checkDot
  cases rhs.ident? with
  | none => exact returns_throw rfl
  | some x =>
    refine (hlhs.evals (henv.tamed hstore)).bind fun owner howner => ?_
    split
    · split
      · -- the field comes from evaluation and is checked as it is, so it has to be of a lower layer
        rename_i value hvalue
        exact hlower k (Nat.lt_succ_self k) (howner.fieldValue? hvalue).layered henv
      · exact returns_throw rfl
    · -- the owner is not known, and the field has its declared type
      refine (h henv).bind fun ty hty => ?_
      split
      · split
        · rename_i decl hdecl
          have hdeclared := hty.fieldDecl? hdecl
          exact returns_typeExpr hstore (hlower 0 (Nat.succ_pos k) hdeclared.layered) hdeclared henv
        · exact returns_throw rfl
      · exact returns_throw rfl

theorem returns_expectBool (h : Checks r store K n) (henv : IsCheckerEnv r store K env) :
    Returns env (fun d => Check.expectBool (check d) n) Ordinary fun _ => True := by
  refine (h henv).bind fun ty _ => ?_
  split
  · exact returns_pure trivial
  · exact returns_throw rfl

theorem checks_ifElse {c : Node} {thenBody elseBody : List Node} (tag : Tag)
    (hc : Checks r store K c) (ht : ∀ n ∈ thenBody, Checks r store K n)
    (he : ∀ n ∈ elseBody, Checks r store K n) :
    Checks r store K (.ifElse tag c thenBody elseBody) := by
  intro env henv
  refine Returns.succ ((returns_expectBool hc henv).bind fun _ _ => ?_)
  refine (returns_arm ht henv tag.span).bind fun result hr => ?_
  refine (returns_arm he henv tag.span).bind fun result' hr' => returns_join _ ?_
  exact List.forall_mem_cons.2 ⟨hr, List.forall_mem_singleton.2 hr'⟩

theorem checks_whileDo {c : Node} (tag : Tag) (hc : Checks r store K c)
    (hb : ∀ n ∈ items, Checks r store K n) : Checks r store K (.whileDo tag c items) := by
  intro env henv
  exact Returns.succ ((returns_expectBool hc henv).bind fun _ _ =>
    returns_checkSeq hb henv tag.span)

theorem checks_block (tag : Tag) (h : ∀ n ∈ items, Checks r store K n) :
    Checks r store K (.block tag items) := by
  intro env henv
  exact Returns.succ (returns_checkSeq h henv tag.span)

theorem checks_matchOn {scrutinee : Node} {cases : List (Case Node)} (tag : Tag)
    (hs : Checks r store K scrutinee) (hp : ∀ c ∈ cases, Checks r store K c.pattern)
    (hb : ∀ c ∈ cases, ∀ n ∈ c.body, Checks r store K n) :
    Checks r store K (.matchOn tag scrutinee cases) := by
  intro env henv
  refine Returns.succ ((hs henv).bind fun ty _ => ?_)
  have hcases : Returns env (fun d => cases.mapM (Check.checkCase (check d) ty)) Ordinary
      fun arms => ∀ arm ∈ arms, Arm r arm.1 := by
    refine Returns.mapM_all fun c hc => ?_
    have harm : Returns env (fun d => do
        let ty ← attempt (Check.checkSeq (check d) c.body c.span)
        return (ty, Check.bodySite c.body c.span)) Ordinary fun arm => Arm r arm.1 :=
      (returns_arm (hb c hc) henv c.span).bind fun result hr => returns_pure hr
    unfold Check.checkCase
    split
    · exact (hp c hc henv).bind fun found _ => (returns_expect ty found _).bind fun _ _ => harm
    · exact harm
  exact hcases.bind fun arms harms => returns_join tag.span harms

/-- The names of a node belong to some higher layer. -/
theorem exists_below (r : Ranking) (k : Nat) (n : Node) : ∃ j, k ≤ j ∧ Below r j n := by
  refine ⟨k + (n.names.map r.rank).sum, Nat.le_add_right _ _, fun x hx => ?_⟩
  have hle : r.rank x ≤ (n.names.map r.rank).sum := List.le_sum_of_mem (List.mem_map_of_mem hx)
  omega

theorem Layered.exists_evals (h : Layered r k n) : ∃ j, Evals r j n := by
  obtain ⟨j, hle, hbelow⟩ := exists_below r k n
  exact ⟨j, (h.mono hle).evals hbelow⟩

theorem returns_checkRange (hstore : AreLayered r store) (h : ∃ j, Evals r j n)
    (henv : IsCheckerEnv r store K env) (range : Option Range) :
    Returns env (fun d => Check.checkRange (eval d) range n) Ordinary fun _ => True := by
  obtain ⟨j, h⟩ := h
  unfold Check.checkRange
  cases range with
  | none => exact returns_pure trivial
  | some range =>
    refine (Returns.under (h ((henv.tamed hstore).resolve true))
      (Guard.lawful_resolve true)).bind fun v _ => ?_
    split
    · split
      · exact returns_throw rfl
      · exact returns_pure trivial
    · exact returns_pure trivial

/-- The value of a field of an instance ends where it is checked and where it is evaluated. -/
def ChecksField (r : Ranking) (store : Definitions) (K : Nat) (n : Node) : Prop :=
  ∀ {tag target value transparent link}, n = .assign tag target value transparent link →
    Checks r store K value ∧ ∃ j, Evals r j value

theorem checksField_value {tag : Tag} {target value : Node} {transparent : Bool}
    {link : Option DefId} (h : Checks r store K value) (heval : ∃ j, Evals r j value) :
    ChecksField r store K (.assign tag target value transparent link) := by
  intro _ _ _ _ _ heq
  cases heq
  exact ⟨h, heval⟩

theorem checksField_other (hn : n.isAlias = false) : ChecksField r store K n := by
  intro _ _ _ _ _ heq
  rw [heq] at hn
  cases hn

theorem returns_checkFields (hstore : AreLayered r store) {tag : Tag} {id : TypeId}
    {fields : List (Decl Node)} {range : Option Range} (htype : Flat r (.record tag id fields range))
    (hflat : ∀ {n}, Flat r n → Checks r store K n) (template : Node)
    (henv : IsCheckerEnv r store K env) : ∀ {body : List Node}, (∀ n ∈ body, ChecksField r store K n) →
    Returns env (fun d => Check.checkFields (eval d) (check d) template fields range body) Ordinary
      fun _ => True
  | [], _ => returns_pure trivial
  | item :: body, h => by
    obtain ⟨hitem, hbody⟩ := List.forall_mem_cons.1 h
    have hfield : Returns env
        (fun d => Check.checkField (eval d) (check d) template fields range item) Ordinary
        fun _ => True := by
      unfold Check.checkField
      split
      · obtain ⟨hvalue, heval⟩ := hitem rfl
        split
        · exact returns_throw rfl
        · split
          · exact returns_throw rfl
          · rename_i decl hdecl
            have hdeclared := htype.fieldDecl? hdecl
            refine (returns_typeExpr hstore (hflat hdeclared) hdeclared henv).bind fun ty _ => ?_
            exact (hvalue henv).bind fun found _ => (returns_expect ty found _).bind fun _ _ =>
              returns_checkRange hstore heval henv range
      · exact returns_throw rfl
    exact hfield.bind fun _ _ => returns_checkFields hstore htype hflat template henv hbody

theorem checks_inst (hstore : AreLayered r store) {template : Node} {body : List Node} (tag : Tag)
    (ht : Checks r store K template) (htemplate : Flat r template)
    (hflat : ∀ {n}, Flat r n → Checks r store K n) (hbody : ∀ n ∈ body, ChecksField r store K n) :
    Checks r store K (.inst tag template body) := by
  intro env henv
  refine Returns.succ ((returns_typeExpr hstore ht htemplate henv).bind fun ty hty => ?_)
  split
  · refine (returns_checkFields hstore hty hflat _ henv hbody).bind fun _ _ => ?_
    split
    · exact returns_throw rfl
    · exact returns_pure hty
  · split
    · split
      · exact returns_pure hty
      · exact returns_throw rfl
    · exact returns_throw rfl
  · exact returns_throw rfl

end

end Layers

end Residual
