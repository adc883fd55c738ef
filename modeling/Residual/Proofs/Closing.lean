/-
Evaluation and closed nodes. An environment `Closes` a set of names if what it puts in place of names
is closed over the set: definitions, the values of local bindings, and the names of binders that are
kept. What a step of evaluation gives back is then closed over the set as well, whatever the evaluator
of the parts is, so long as it does the same. Where names are resolved, an alias is replaced by its
value and its binder is dropped; where they are kept, its binder is kept with them; the binder of a
function is always kept.

The step lemma serves two purposes: to bound the names of residual code where a name may be missing,
and to show that none is missing. The proposition `m` tells which of the two.
-/
import Residual.Proofs.Closedness
import Residual.Proofs.Reduction
import Residual.Proofs.Steps

namespace Residual

/-- The name that stands for nothing, if that is the fault. -/
def Fault.unknownName? : Fault → Option Name
  | .error (.unknownName name _) => some name
  | _ => none

namespace Env

/-! ## Environments -/

variable {m : Prop} {P Q : Name → Prop} {env : Env} {x : Name}

/-- The name stands for something. -/
def Knows (env : Env) (x : Name) : Prop := (env.lookup x).isSome = true

/-- The name is one that a binder has in residual code, where its own was taken. -/
def Renames (env : Env) (x : Name) : Prop := ∃ b ∈ env.locals.bindings, b.rename = some x

/-- The name stands for something, here or in residual code, or `m` allows it to be missing. -/
def Finds (m : Prop) (env : Env) (x : Name) : Prop := env.Knows x ∨ env.Renames x ∨ m

/-- A binding lets its name stand for something. -/
theorem knows_push {b : Binding} : (env.push b).Knows x ↔ env.Knows x ∨ x = b.name := by
  by_cases hname : x = b.name
  · have hlookup : (env.push b).lookup x = some (.bound b) :=
      lookup_bound (hname ▸ env.locals.find?_push_self b)
    exact iff_of_true (by rw [Knows, hlookup]; rfl) (.inr hname)
  · have hfind : (env.push b).locals.find? x = env.locals.find? x := Locals.find?_push_of_ne hname
    rw [or_iff_left hname, Knows, Knows, lookup, lookup, hfind]
    rfl

theorem Finds.push (h : env.Finds m x) (b : Binding) : (env.push b).Finds m x :=
  h.imp (fun hx => knows_push.2 (.inl hx))
    (.imp_left fun ⟨c, hc, hx⟩ => ⟨c, List.mem_cons_of_mem _ hc, hx⟩)

theorem finds_push_self (m : Prop) (env : Env) (b : Binding) : (env.push b).Finds m b.name :=
  .inl (knows_push.2 (.inr rfl))

/-- Residual code finds a binder by the name that it has there. -/
theorem finds_push_residual (m : Prop) (env : Env) (b : Binding) : (env.push b).Finds m b.residual := by
  rw [Binding.residual]
  cases hrename : b.rename with
  | none => exact finds_push_self m env b
  | some y => exact .inr (.inl ⟨b, List.mem_cons_self, hrename⟩)

/-- What the environment puts in place of names is closed over the set: the values of definitions and
of local bindings, and the residual names of those local bindings that may be kept. If no name may be
missing, those of the set are there, and names are resolved. -/
structure Closes (m : Prop) (P : Name → Prop) (env : Env) : Prop where
  defined : ∀ {x d v}, env.store.lookup x = some (d, v) → P x ∧ v.Closed P
  builtin : ∀ {x b}, Builtin.ofName? x = some b → P x
  values : ∀ b ∈ env.locals.bindings, b.value.isPlaceholder = false → b.value.Closed P
  residuals : ∀ b ∈ env.locals.bindings, b.value.isPlaceholder = true ∨ env.resolve = false →
    P b.residual
  finds : ∀ x, P x → env.Finds m x
  mode : env.resolve = true ∨ m

namespace Closes

theorem resolved (h : env.Closes m P) : { env with resolve := true }.Closes m P :=
  { h with
    residuals := fun b hb hr => h.residuals b hb (.inl (hr.resolve_right Bool.noConfusion))
    mode := .inl rfl }

theorem called (h : env.Closes m P) (n : Node) : (env.enterCall n).Closes m P := { h with }

theorem transparent (h : env.Closes m P) (t : Bool) : { env with transparent := t }.Closes m P :=
  { h with }

theorem push (h : env.Closes m P) {b : Binding} (hPQ : ∀ x, P x → Q x)
    (hv : b.value.isPlaceholder = false → b.value.Closed Q)
    (hb : b.value.isPlaceholder = true ∨ env.resolve = false → Q b.residual)
    (hQ : ∀ x, Q x → (env.push b).Finds m x) : (env.push b).Closes m Q where
  defined hx := ⟨hPQ _ (h.defined hx).1, (h.defined hx).2.mono hPQ⟩
  builtin hx := hPQ _ (h.builtin hx)
  values c hc hp := by
    rcases List.mem_cons.1 hc with rfl | hc
    · exact hv hp
    · exact (h.values c hc hp).mono hPQ
  residuals c hc hp := by
    rcases List.mem_cons.1 hc with rfl | hc
    · exact hb hp
    · exact hPQ _ (h.residuals c hc hp)
  finds := hQ
  mode := h.mode

/-- Where names are resolved, the name of a binding with a value does not come up again. -/
theorem push_known (h : env.Closes m P) {b : Binding} (hr : env.resolve = true)
    (hv : b.value.Closed P) : (env.push b).Closes m P :=
  h.push (fun _ hx => hx) (fun _ => hv)
    (fun hp => by rcases hp with hp | hp <;> simp_all [hv.isPlaceholder])
    fun x hx => (h.finds x hx).push b

/-- A binder that is kept adds its name to the set. -/
theorem push_binder (h : env.Closes m P) {b : Binding}
    (hv : b.value.isPlaceholder = false → b.value.Closed P) :
    (env.push b).Closes m fun x => P x ∨ x = b.residual := by
  refine h.push (fun _ => .inl) (fun hp => (hv hp).mono fun _ => .inl) (fun _ => .inr rfl) ?_
  rintro x (hx | rfl)
  · exact (h.finds x hx).push b
  · exact finds_push_residual m env b

end Closes

end Env

/-! ## Evaluation -/

theorem Node.exists_of_boundName? {n : Node} {x : Name} (h : n.boundName? = some x) :
    ∃ tag xtag value transparent link, n = .assign tag (.ident xtag x) value transparent link := by
  cases n with
  | assign tag target value transparent link =>
    cases target with
    | ident xtag y =>
      cases h
      exact ⟨_, _, _, _, _, rfl⟩
    | _ => cases h
  | _ => cases h

theorem Eval.bindLocal_of_boundName? {n : Node} (h : n.boundName? = none) :
    bindLocal n = pure n := by
  unfold bindLocal
  split
  · cases h
  · rfl

open Pass Node

/-- The faults of evaluation: a name is unknown only where one may be missing. -/
abbrev Missing (m : Prop) (f : Fault) : Prop := f.unknownName?.isSome = true → m

/-- An evaluator whose results are closed over what its environment closes. What a node binds, its
result binds. -/
def Closing (m : Prop) (ev : Node → Pass Node) : Prop :=
  ∀ ⦃env : Env⦄ ⦃P : Name → Prop⦄ ⦃n : Node⦄, env.Closes m P → n.Closed (env.Finds m) →
    Returns env (fun _ => ev n) (Missing m) fun v =>
      v.Closed P ∧ ∀ x, n.boundName? = some x → v.boundName? = some x

namespace Closing

variable {m : Prop} {P : Name → Prop} {env : Env} {ev : Node → Pass Node}

theorem closed (hev : Closing m ev) (henv : env.Closes m P) {n : Node} (hn : n.Closed (env.Finds m)) :
    Returns env (fun _ => ev n) (Missing m) (·.Closed P) :=
  (hev henv hn).mono fun _ hv => hv.1

/-! ### Sequences -/

/-- What holds after a node of a sequence has been evaluated to `v`: the environment has become `e`,
and closes the names `Q`. -/
structure Follows (m : Prop) (P : Name → Prop) (env : Env) (item v : Node) (e : Env)
    (Q : Name → Prop) : Prop where
  closes : e.Closes m Q
  opened : Opened env e
  mode : e.resolve = env.resolve
  closed : v.Closed P
  finds : ∀ x, env.Finds m x ∨ item.boundName? = some x → e.Finds m x
  names : ∀ x, Q x → P x ∨ v.boundName? = some x
  dropped : env.resolve = true ∨ v.isAlias = false → ∀ x, Q x → P x

/-- An evaluated node of a sequence is bound if it is an alias. Then its name is either kept with it,
or dropped where it is replaced by its value. -/
theorem leads_bindLocal (henv : env.Closes m P) {item v : Node} (hv : v.Closed P)
    (hbound : ∀ x, item.boundName? = some x → v.boundName? = some x) :
    Leads env (fun _ => Eval.bindLocal v) (Missing m) fun w e => ∃ Q, Follows m P env item w e Q := by
  cases hname : v.boundName? with
  | none =>
    rw [Eval.bindLocal_of_boundName? hname]
    refine leads_pure ⟨P, henv, .same, rfl, hv, fun x hx => ?_, fun _ => .inl, fun _ _ hx => hx⟩
    refine hx.resolve_right fun hx => ?_
    rw [hbound x hx] at hname
    cases hname
  | some y =>
    obtain ⟨tag, ytag, value, transparent, link, rfl⟩ := Node.exists_of_boundName? hname
    have hvalue := (closed_assign.1 hv).2
    refine (Eval.leads_bindAlias tag ytag y value transparent link).mono ?_
    rintro w e ⟨⟨tag', ytag', link', rfl⟩, he⟩
    rw [he]
    let b : Binding := ⟨y, value, transparent || env.transparent, env.freshName y⟩
    have hfinds (x : Name) (hx : env.Finds m x ∨ item.boundName? = some x) :
        (env.push b).Finds m x := by
      rcases hx with hx | hx
      · exact hx.push b
      · cases hbound x hx
        exact Env.finds_push_self m env b
    cases hr : env.resolve with
    | true =>
      exact ⟨P, henv.push_known hr hvalue, .push _ .same, rfl, closed_assign.2 ⟨rfl, hvalue⟩, hfinds,
        fun _ => .inl, fun _ _ hx => hx⟩
    | false =>
      -- The binder is kept under its residual name, by which what follows may refer to it.
      refine ⟨fun x => P x ∨ x = b.residual, henv.push_binder fun _ => hvalue,
        .push _ .same, rfl, closed_assign.2 ⟨rfl, hvalue⟩, hfinds,
        fun x hx => hx.imp_right fun heq => congrArg some heq.symm, fun h => ?_⟩
      simp [hr, isAlias] at h

/-- The nodes of a sequence, evaluated. If no binder is kept, each of them is closed by itself. -/
theorem leads_items (hev : Closing m ev) : ∀ {items : List Node} {env : Env} {P : Name → Prop},
    env.Closes m P → ClosedSeq (env.Finds m) items →
    Leads env (fun _ => items.mapM fun item => do Eval.bindLocal (← ev item)) (Missing m) fun vs e =>
      (ClosedSeq P vs ∧
        (env.resolve = true ∨ (∀ v ∈ vs, v.isAlias = false) → ∀ v ∈ vs, v.Closed P)) ∧
      Opened env e
  | [], env, P, _, _ => by
    simp only [List.mapM_nil]
    exact leads_pure ⟨⟨closedSeq_nil, fun _ => List.forall_mem_nil _⟩, .same⟩
  | item :: items, env, P, henv, h => by
    -- After the first node the environment closes another set, over which the rest is closed.
    obtain ⟨hitem, hitems⟩ := closedSeq_cons.1 h
    refine Eval.leads_cons (Returns.leads (hev henv hitem) ?_)
    rintro v ⟨hv, hbound⟩
    refine (leads_bindLocal henv hv hbound).mono ?_
    rintro w e ⟨Q, hw⟩
    refine ⟨hw.opened, (leads_items hev hw.closes (hitems.mono hw.finds)).mono ?_⟩
    rintro vs e' ⟨⟨hvs, hall⟩, he'⟩
    refine ⟨⟨closedSeq_cons.2 ⟨hw.closed, hvs.mono hw.names⟩, fun hkept => ?_⟩, he'⟩
    have hall' := hall (hw.mode ▸ hkept.imp_right fun h v hv => h v (List.mem_cons_of_mem _ hv))
    have hdropped := hw.dropped (hkept.imp_right fun h => h w List.mem_cons_self)
    exact List.forall_mem_cons.2 ⟨hw.closed, fun v hv => (hall' v hv).mono hdropped⟩

theorem returns_evalSeq (hev : Closing m ev) (henv : env.Closes m P) {items : List Node}
    (h : ClosedSeq (env.Finds m) items) :
    Returns env (fun _ => Eval.evalSeq ev items) (Missing m) fun vs => ClosedSeq P vs ∧
      (env.resolve = true ∨ (∀ v ∈ vs, v.isAlias = false) → ∀ v ∈ vs, v.Closed P) :=
  (leads_items hev henv h).scope

/-- The value of a sequence. -/
theorem returns_value (hev : Closing m ev) (henv : env.Closes m P) {items : List Node}
    (h : ClosedSeq (env.Finds m) items) (site : Span) :
    Returns env (fun _ => do Eval.seqValue (← Eval.evalSeq ev items) site) (Missing m)
      (·.Closed P) := by
  refine (returns_evalSeq hev henv h).bind ?_
  rintro vs ⟨hvs, hall⟩
  refine returns_env.bind fun _ heq => ?_
  subst heq
  split
  · rename_i hkept
    have hkept : env.resolve = true ∨ ∀ v ∈ vs, v.isAlias = false := by simpa using hkept
    cases hlast : vs.getLast? with
    | none => exact returns_throw fun h => nomatch h
    | some last => exact returns_pure (hall hkept last (List.mem_of_getLast? hlast))
  · exact (returns_tagAt _).bind fun t _ => returns_pure hvs

/-! ### Names and functions -/

theorem returns_evalType (hev : Closing m ev) (henv : env.Closes m P) {ty : Node}
    (h : ty.Closed (env.Finds m)) :
    Returns env (fun _ => Eval.evalType ev ty) (Missing m) (·.Closed P) :=
  Eval.returns_evalType (hev.closed henv.resolved h)

theorem returns_evalIdent (henv : env.Closes m P) {x : Name} (hx : env.Knows x ∨ m) (tag : Tag) :
    Returns env (fun _ => Eval.evalIdent tag x) (Missing m) (·.Closed P) := by
  refine Eval.returns_evalName tag (fun hnone _ => hx.resolve_left (by simp [Env.Knows, hnone]))
    (fun b hb => ?_) (fun d v hv => ?_) fun b hb t => ⟨closed_builtin, ?_⟩
  · obtain ⟨hmem, rfl⟩ := Env.mem_of_lookup_bound hb
    exact ⟨henv.values b hmem, fun hkept t => closed_ident.2 (henv.residuals b hmem hkept)⟩
  · obtain ⟨hname, hvalue⟩ := henv.defined (Env.lookup_of_defined hv)
    exact ⟨fun _ => hvalue, fun t => closed_ident.2 hname⟩
  · exact closed_ident.2 (henv.builtin (Env.ofName?_of_lookup hb))

/-- The binder of a function is kept, under its residual name. -/
theorem returns_evalFunc (hev : Closing m ev) (henv : env.Closes m P) {tag : Tag}
    {param : Decl Node} {body : List Node} (h : (func tag param body).Closed (env.Finds m)) :
    Returns env (fun _ => Eval.evalFunc ev tag param body) (Missing m) (·.Closed P) := by
  obtain ⟨hty, hbody⟩ := closed_func.1 h
  refine Eval.returns_evalFunc (returns_evalType hev henv hty) (fun ty t _ => ?_)
    fun t ty vs hty hvs => closed_func.2 ⟨hty, hvs⟩
  let b : Binding := ⟨param.name, if ty.isType then .selfType t ty else .unknown t, false,
    env.freshName param.name⟩
  have henv' : ((env.enterCall (.func tag param body)).push b).Closes m
      fun x => P x ∨ x = b.residual :=
    (henv.called _).push_binder fun hp => by simp [b, Eval.isPlaceholder_param] at hp
  have hbody' : ClosedSeq (((env.enterCall (.func tag param body)).push b).Finds m) body := by
    refine hbody.mono ?_
    rintro x (hx | rfl)
    · have hx : (env.enterCall (.func tag param body)).Finds m x := hx
      exact hx.push b
    · exact Env.finds_push_self m (env.enterCall (.func tag param body)) b
  exact (returns_evalSeq hev henv' hbody').mono fun _ hvs => hvs.1

/-- The body of a closed function, with the parameter bound to a closed argument. -/
theorem returns_apply (hev : Closing m ev) (henv : env.Closes m P) (hr : env.resolve = true)
    {tag : Tag} {param : Decl Node} {body : List Node} {arg : Node}
    (hf : (func tag param body).Closed P) (harg : arg.Closed P) (site : Span) :
    Returns env (fun _ => Eval.apply ev (.func tag param body) param body arg site) (Missing m)
      (·.Closed P) := by
  let b : Binding := ⟨param.name, arg, true, none⟩
  let env' : Env := { env.enterCall (.func tag param body) with transparent := true }
  have henv' : (env'.push b).Closes m P :=
    ((henv.called (.func tag param body)).transparent true).push_known hr harg
  have hbody : ClosedSeq ((env'.push b).Finds m) body := by
    refine (closed_func.1 hf).2.mono ?_
    rintro x (hx | rfl)
    · have hx : env'.Finds m x := henv.finds x hx
      exact hx.push b
    · exact Env.finds_push_self m env' b
  exact Eval.returns_apply (returns_value hev henv' hbody site)

/-- A call becomes its result, or stays with its parts evaluated. Where names are kept, the result of
unfolding it is not looked at. -/
theorem returns_evalCall (hev : Closing m ev) (hrestores : ∀ n, Restores (ev n))
    (henv : env.Closes m P) {callee arg : Node} (hcallee : callee.Closed (env.Finds m))
    (harg : arg.Closed (env.Finds m)) (tag : Tag) :
    Returns env (fun _ => Eval.evalCall ev tag callee arg) (Missing m) (·.Closed P) := by
  refine Eval.returns_evalCall tag (returns_evalType hev henv hcallee) (hev.closed henv harg)
    (fun t param body v hf hv _ => ?_) fun f v hf hv _ => ?_
  · cases hr : env.resolve with
    | true => exact (returns_apply hev henv hr hf hv tag.span).mono fun _ hw _ => hw
    | false =>
      -- Names are kept, so that one may be missing, and any fault of the unfolding will do.
      have hm : m := henv.mode.resolve_left (by simp [hr])
      exact ((Eval.restores_apply hrestores _ param body v tag.span).returns fun _ _ => hm).mono
        fun _ _ hresolve => by cases hresolve
  · have hcall (k : Node) (hk : k.Closed P) (t : Tag) : (call t k v).Closed P :=
      closed_call.2 ⟨hk, hv⟩
    refine Eval.returns_keptCallee (fun t x hx hr => ?_) fun _ => Eval.returns_residualCallee
      (fun _ => hcall f hf) fun t x found hx hfound _ hname => hcall callee ?_
    · exact (returns_evalIdent henv (.inr (henv.mode.resolve_left (by simp [hr]))) t).mono hcall
    · subst hx
      rcases hname with ⟨d, v, rfl⟩ | ⟨b, rfl⟩
      · exact closed_ident.2 (henv.defined (Env.lookup_of_defined hfound)).1
      · exact closed_ident.2 (henv.builtin (Env.ofName?_of_lookup hfound))

/-! ### Operators and control -/

theorem returns_evalBinOp (hev : Closing m ev) (henv : env.Closes m P) {tag : Tag} {op : Operator}
    {lhs rhs : Node} (h : (binOp tag op lhs rhs).Closed (env.Finds m)) :
    Returns env (fun _ => Eval.evalBinOp ev tag op lhs rhs) (Missing m) (·.Closed P) := by
  by_cases hop : op = .dot
  · subst hop
    obtain ⟨hl, hr⟩ := closed_dot.1 h
    refine Eval.returns_evalDot tag (hev.closed henv hl) (fun t template body t' x howner _ => ?_)
      fun owner t howner _ => closed_dot.2 ⟨howner, hr⟩
    cases hvalue : fieldValue? body x with
    | some value => exact .inl ⟨value, rfl, closed_fieldValue? (closed_inst.1 howner).2 hvalue⟩
    | none => exact .inr ⟨rfl, fun h => by cases h⟩
  · obtain ⟨hl, hr⟩ := (closed_binOp hop).1 h
    exact Eval.returns_evalBinOp tag hop (hev.closed henv hl) (hev.closed henv hr)
      (fun _ _ _ _ _ _ _ _ _ _ _ => closed_lit) fun a b t ha hb _ => (closed_binOp hop).2 ⟨ha, hb⟩

theorem returns_evalIf (hev : Closing m ev) (henv : env.Closes m P) {tag : Tag} {c : Node}
    {thenBody elseBody : List Node} (h : (ifElse tag c thenBody elseBody).Closed (env.Finds m)) :
    Returns env (fun _ => Eval.evalIf ev tag c thenBody elseBody) (Missing m) (·.Closed P) := by
  obtain ⟨hc, ht, he⟩ := closed_ifElse.1 h
  exact Eval.returns_evalIf tag (hev.closed henv hc) (fun _ _ _ => returns_value hev henv ht _)
    (fun _ _ _ => returns_value hev henv he _) (returns_evalSeq hev henv ht)
    (returns_evalSeq hev henv he) fun _ _ _ _ hv _ hts hes => closed_ifElse.2 ⟨hv, hts.1, hes.1⟩

theorem returns_evalMatch (hev : Closing m ev) (henv : env.Closes m P) {tag : Tag}
    {scrutinee : Node} {cases : List (Case Node)}
    (h : (matchOn tag scrutinee cases).Closed (env.Finds m)) :
    Returns env (fun _ => Eval.evalMatch ev tag scrutinee cases) (Missing m) (·.Closed P) := by
  obtain ⟨hs, hcases⟩ := closed_matchOn.1 h
  refine Eval.returns_evalMatch tag (hev.closed henv hs)
    (fun c hc hw => hev.closed henv ((hcases c hc).1 hw))
    (fun c hc => returns_value hev henv (hcases c hc).2 c.span)
    (fun c hc => (returns_evalSeq hev henv (hcases c hc).2).mono fun _ hvs => hvs.1)
    (fun v _ _ h => by cases h) fun v cs t hv _ hcs => closed_matchOn.2 ⟨hv, fun c hc => ?_⟩
  exact ⟨Eval.pattern_of_kept hcs c hc, Eval.body_of_kept hcs c hc⟩

/-! ### Nodes -/

theorem returns_inst (hev : Closing m ev) (henv : env.Closes m P) {tag : Tag} {template : Node}
    {body : List Node} (h : (inst tag template body).Closed (env.Finds m)) :
    Returns env (fun _ => Eval.step ev (.inst tag template body)) (Missing m) (·.Closed P) := by
  obtain ⟨ht, hb⟩ := closed_inst.1 h
  refine (returns_evalType hev henv ht).bind fun t ht => ?_
  have hfield (n : Node) (hn : n ∈ body) :
      Returns env (fun _ => Eval.evalField ev n) (Missing m) fun v => v.ident? = none → v.Closed P :=
    Eval.returns_evalField (fun _ _ hident hnone => by rw [hident] at hnone; cases hnone)
      fun hnone => (hev.closed henv (hb n hn hnone)).mono fun _ hv _ => hv
  refine (Returns.mapM_all hfield).bind fun vs hvs => ?_
  exact (returns_tagAt _).bind fun _ _ => returns_pure (closed_inst.2 ⟨ht, hvs⟩)

theorem returns_record (hev : Closing m ev) (henv : env.Closes m P) {tag : Tag} {id : TypeId}
    {fields : List (Decl Node)} {range : Option Range}
    (h : (record tag id fields range).Closed (env.Finds m)) :
    Returns env (fun _ => Eval.step ev (.record tag id fields range)) (Missing m) (·.Closed P) := by
  have hdecl (d : Decl Node) (hd : d ∈ fields) :
      Returns env (fun _ => Eval.evalDecl ev d) (Missing m) fun d' => d'.ty.Closed P :=
    (returns_evalType hev henv (closed_record.1 h d hd)).bind fun ty hty => returns_pure hty
  exact (Returns.mapM_all hdecl).bind fun ds hds => (returns_tagAt _).bind fun t _ =>
    returns_pure (closed_record.2 hds)

/-- An alias stays one, and binds what it bound. -/
theorem returns_alias (hev : Closing m ev) (henv : env.Closes m P) {tag : Tag} {target value : Node}
    {transparent : Bool} {link : Option DefId}
    (h : (assign tag target value transparent link).Closed (env.Finds m)) :
    Returns env (fun _ => Eval.step ev (.assign tag target value transparent link)) (Missing m)
      fun v => v.Closed P ∧ ∀ x, target.ident? = some x → v.boundName? = some x := by
  obtain ⟨htarget, hvalue⟩ := closed_assign.1 h
  refine (hev.closed henv hvalue).bind fun v hv => returns_env.bind fun _ _ => ?_
  exact (returns_tagAt _).bind fun t _ =>
    returns_pure ⟨closed_assign.2 ⟨htarget, hv⟩, fun _ hx => hx⟩

/-- What one step makes of a node is closed over what the environment closes. A name that a binder has
in residual code only may be looked up only where a name may be missing. -/
theorem returns_step (hev : Closing m ev) (hrestores : ∀ n, Restores (ev n)) (henv : env.Closes m P)
    {n : Node} (hn : n.Closed (env.Finds m))
    (hread : ∀ {tag x}, n = .ident tag x → env.Renames x → env.Knows x ∨ m) :
    Returns env (fun _ => Eval.step ev n) (Missing m) (·.Closed P) := by
  cases n with
  | lit => exact returns_pure closed_lit
  | builtin => exact returns_pure closed_builtin
  | enum => exact returns_pure closed_enum
  | unknown => exact absurd hn closed_unknown
  | selfType => exact absurd hn closed_selfType
  | list =>
    refine (Returns.mapM_all fun n hmem => hev.closed henv (closed_list.1 hn n hmem)).bind
      fun vs hvs => ?_
    exact (returns_tagAt _).bind fun t _ => returns_pure (closed_list.2 hvs)
  | record => exact returns_record hev henv hn
  | fnType =>
    obtain ⟨hdom, hcod⟩ := closed_fnType.1 hn
    refine (returns_evalType hev henv hdom).bind fun dom hdom => ?_
    refine (returns_evalType hev henv hcod).bind fun cod hcod => ?_
    exact (returns_tagAt _).bind fun t _ => returns_pure (closed_fnType.2 ⟨hdom, hcod⟩)
  | arg =>
    refine (returns_evalType hev henv (closed_arg.1 hn)).bind fun ty hty => ?_
    exact (returns_tagAt _).bind fun t _ => returns_pure (closed_arg.2 hty)
  | field =>
    refine (returns_evalType hev henv (closed_field.1 hn)).bind fun ty hty => ?_
    exact (returns_tagAt _).bind fun t _ => returns_pure (closed_field.2 hty)
  | assign => exact (returns_alias hev henv hn).mono fun _ hv => hv.1
  | ident =>
    refine returns_evalIdent henv ?_ _
    rcases closed_ident.1 hn with hx | hx | hm
    · exact .inl hx
    · exact hread rfl hx
    · exact .inr hm
  | func => exact returns_evalFunc hev henv hn
  | call =>
    exact returns_evalCall hev hrestores henv (closed_call.1 hn).1 (closed_call.1 hn).2 _
  | binOp => exact returns_evalBinOp hev henv hn
  | matchOn => exact returns_evalMatch hev henv hn
  | whileDo =>
    obtain ⟨hc, hb⟩ := closed_whileDo.1 hn
    refine (hev.closed henv hc).bind fun c hc => ?_
    refine (returns_evalSeq hev henv hb).bind fun vs hvs => ?_
    exact (returns_tagAt _).bind fun t _ => returns_pure (closed_whileDo.2 ⟨hc, hvs.1⟩)
  | ifElse => exact returns_evalIf hev henv hn
  | block => exact returns_value hev henv (closed_block.1 hn) _
  | inst => exact returns_inst hev henv hn

/-- One step after an evaluator whose results are closed has closed results. -/
theorem step (hev : Closing m ev) (hrestores : ∀ n, Restores (ev n)) (henv : env.Closes m P)
    {n : Node} (hn : n.Closed (env.Finds m))
    (hread : ∀ {tag x}, n = .ident tag x → env.Renames x → env.Knows x ∨ m) :
    Returns env (fun _ => Eval.step ev n) (Missing m) fun v =>
      v.Closed P ∧ ∀ x, n.boundName? = some x → v.boundName? = some x := by
  cases n with
  | assign => exact returns_alias hev henv hn
  | _ =>
    exact (returns_step hev hrestores henv hn hread).mono fun _ hv => ⟨hv, fun _ hx => nomatch hx⟩

end Closing

end Residual
