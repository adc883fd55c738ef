/-
Evaluation to known values, where names are resolved. A name that has a value becomes it, two numbers
are folded, and where the value of a condition or of a scrutinee is known, one branch is taken and the
others are not looked at. The value of a sequence is that of its last node, so a sequence is followed
node by node for what its last node evaluates to. A call becomes the value of the body of the function.

The rules say nothing of what the values are. Each of them hands on what is known of the parts.
-/
import Residual.Proofs.Steps

namespace Residual

open Pass Residual.FirstOrder

variable {env : Env} {F : Fault → Prop} {P Q R : Node → Prop} {n : Node}

/-! ## Sequences -/

/-- The nodes of a sequence evaluate, each seen by those after it, and the last one evaluates to a
node with the property. -/
def EvalsSeq (env : Env) (items : List Node) (F : Fault → Prop) (Q : Node → Prop) : Prop :=
  Leads env (fun d => items.mapM fun item => do Eval.bindLocal (← eval d item)) F
    fun vs e => (∃ v, vs.getLast? = some v ∧ Q v) ∧ Opened env e

/-- An alias in a sequence binds its name to its value. It stays as an alias, under the other name if
its own is taken. -/
theorem leads_alias {x : Name} (tag xtag : Tag) (transparent : Bool) (link : Option DefId)
    (h : Returns env (fun d => eval d n) F P) :
    Leads env
      (fun d => do Eval.bindLocal (← eval d (.assign tag (.ident xtag x) n transparent link))) F
      fun w env' => ∃ v, P v ∧
        env' = env.push ⟨x, v, transparent || env.transparent, env.freshName x⟩ ∧
        ∃ t t' link', w = .assign t (.ident t' ((env.freshName x).getD x)) v transparent link' := by
  have hvalue : Returns env (fun d => eval d (.assign tag (.ident xtag x) n transparent link)) F
      fun w => ∃ t v link', w = .assign t (.ident xtag x) v transparent link' ∧ P v :=
    Returns.succ (h.bind fun v hv => returns_env.bind fun _ _ => (returns_tagAt _).bind
      fun t _ => returns_pure ⟨t, v, _, rfl, hv⟩)
  refine hvalue.leads ?_
  rintro _ ⟨t, v, link', rfl, hv⟩
  refine returns_env.leads fun _ henv => ?_
  subst henv
  refine Leads.push ?_
  cases env.freshName x with
  | some other =>
    exact (returns_tagAt _).leads fun t' _ => (returns_tagAt _).leads fun t _ =>
      leads_pure ⟨v, hv, rfl, t, t', _, rfl⟩
  | none => exact leads_pure ⟨v, hv, rfl, t, xtag, link', rfl⟩

namespace EvalsSeq

variable {rest items : List Node}

theorem last (h : Returns env (fun d => eval d n) F Q) (hQ : ∀ v, Q v → v.isAlias = false) :
    EvalsSeq env [n] F Q :=
  leads_last h hQ fun v hv => ⟨v, rfl, hv⟩

theorem next (h : Returns env (fun d => eval d n) F P) (hP : ∀ v, P v → v.isAlias = false)
    (hrest : EvalsSeq env rest F Q) : EvalsSeq env (n :: rest) F Q :=
  leads_next h hP fun _ _ => hrest.mono fun _ _ ⟨hvs, hopen⟩ => ⟨Eval.exists_last_cons hvs, hopen⟩

/-- An alias is bound to its value, under another name in residual code if its own is taken. -/
theorem bind {x : Name} {value : Node} (tag xtag : Tag) (transparent : Bool) (link : Option DefId)
    (h : Returns env (fun d => eval d value) F P)
    (hrest : ∀ v, P v →
      EvalsSeq (env.push ⟨x, v, transparent || env.transparent, env.freshName x⟩) rest F Q) :
    EvalsSeq env (.assign tag (.ident xtag x) value transparent link :: rest) F Q := by
  refine Eval.leads_cons ((leads_alias tag xtag transparent link h).mono ?_)
  rintro w _ ⟨v, hv, rfl, -⟩
  exact ⟨.push _ .same, (hrest v hv).mono fun _ _ ⟨hvs, hopen⟩ => ⟨Eval.exists_last_cons hvs, hopen⟩⟩

theorem value (h : EvalsSeq env items F Q) (hr : env.resolve = true) (site : Span) :
    Returns env (fun d => Eval.evalSeq (eval d) items >>= (Eval.seqValue · site)) F Q := by
  refine (Leads.scope h).bind ?_
  rintro vs ⟨v, hlast, hv⟩
  refine Eval.returns_seqLast (fun _ => ⟨v, hlast, hv⟩) fun hkept => ?_
  rw [hr] at hkept
  cases hkept

end EvalsSeq

/-! ## Names and operators -/

/-- A name that is found with a value becomes the value. -/
theorem returns_found (hr : env.resolve = true) {x : Name} {found : Found}
    (hx : env.lookup x = some found) (hp : found.isPlaceholder = false)
    (hv : Pass.valueOf found = pure n) (tag : Tag) :
    Returns env (fun d => eval d (.ident tag x)) F (· = n) := by
  refine Returns.succ (Eval.returns_evalFound tag hx (fun _ _ => ?_) fun hkept => ?_)
  · rw [hv]
    exact returns_pure rfl
  · simp [hp, hr] at hkept

/-- An operator on two numbers is folded. -/
theorem returns_fold {op : Operator} {lhs rhs : Node} {A B : Float → Prop} (tag : Tag)
    (hop : op ≠ .dot) (hl : Returns env (fun d => eval d lhs) F fun v => ∃ x, v.number? = some x ∧ A x)
    (hr : Returns env (fun d => eval d rhs) F fun v => ∃ y, v.number? = some y ∧ B y)
    (h : ∀ x y, A x → B y → ∃ l, op.fold x y = some l ∧ ∀ t, Q (.lit t l)) :
    Returns env (fun d => eval d (.binOp tag op lhs rhs)) F Q := by
  refine Returns.succ (Eval.returns_evalBinOp tag hop hl hr ?_ ?_)
  · rintro a b x y l t ⟨x', hx', hA⟩ ⟨y', hy', hB⟩ hx hy hfold
    rw [hx] at hx'
    rw [hy] at hy'
    cases hx'
    cases hy'
    obtain ⟨l', hfold', hQ⟩ := h x y hA hB
    rw [hfold] at hfold'
    cases hfold'
    exact hQ t
  · rintro a b t ⟨x, hx, hA⟩ ⟨y, hy, hB⟩ hnone
    obtain ⟨l, hfold, -⟩ := h x y hA hB
    rw [hnone x y hx hy] at hfold
    cases hfold

/-! ## Control -/

/-- The branch of a known condition is taken. -/
theorem returns_branch {c : Node} {thenBody elseBody : List Node} {R : Bool → Prop} (tag : Tag)
    (hr : env.resolve = true)
    (hc : Returns env (fun d => eval d c) F fun v => ∃ taken, v.bool? = some taken ∧ R taken)
    (h : ∀ taken, R taken → EvalsSeq env (if taken then thenBody else elseBody) F Q) :
    Returns env (fun d => eval d (.ifElse tag c thenBody elseBody)) F Q := by
  refine Returns.succ (hc.bind ?_)
  rintro v ⟨taken, htaken, hR⟩
  simp only [htaken]
  exact (h taken hR).value hr tag.span

/-- A match on a known value is decided. -/
theorem returns_decided {scrutinee : Node} {cases : List (Case Node)} (tag : Tag)
    (hs : Returns env (fun d => eval d scrutinee) F P) (hP : ∀ v, P v → v.isStatic = true)
    (h : ∀ v, P v → Returns env (fun d => Eval.evalCases (eval d) v tag.span cases) F Q) :
    Returns env (fun d => eval d (.matchOn tag scrutinee cases)) F Q := by
  refine Returns.succ (hs.bind fun v hv => ?_)
  simp only [hP v hv, if_true]
  exact h v hv

/-! ## Calls -/

/-- The name of a function stands for the function. -/
theorem returns_function {store : Definitions} (h : env.Over store) {f : Name} {d : DefId} {t : Tag}
    {param : Decl Node} {body : List Node} (hf : store.lookup f = some (d, .func t param body))
    (ftag : Tag) :
    Returns env (fun d => Eval.evalType (eval d) (.ident ftag f)) F (· = .func t param body) := by
  have hover : ({ env with resolve := true } : Env).Over store := ⟨h.store_eq, h.names⟩
  exact Returns.under (returns_found rfl (hover.lookup_defined hf) rfl rfl ftag)
    (Guard.lawful_resolve true)

/-- A call of a function is unfolded, unless the function is being called already and its argument
is not known: it becomes the value of the body, with nothing but the parameter bound. -/
theorem returns_unfolded {f arg : Node} (tag : Tag) (hr : env.resolve = true)
    (hf : Returns env (fun d => Eval.evalType (eval d) f) F P)
    (harg : Returns env (fun d => eval d arg) F R)
    (h : ∀ function v, P function → R v → ∃ t param body, function = .func t param body ∧
      (env.isOnStack function = false ∨ v.isStatic = true) ∧
      EvalsSeq ({ env.enterCall function with
        transparent := true }.push ⟨param.name, v, true, none⟩) body F Q) :
    Returns env (fun d => eval d (.call tag f arg)) F Q := by
  refine Returns.succ (Eval.returns_evalCall tag hf harg (fun t param body v hfun hv _ => ?_)
    fun function v hfun hv hstays => ?_)
  · obtain ⟨_, _, _, heq, -, hbody⟩ := h _ v hfun hv
    cases heq
    exact Eval.returns_apply ((hbody.value hr tag.span).mono fun _ hw _ => hw)
  · -- This is where a recursive call on an unknown argument would stay.
    obtain ⟨t, param, body, rfl, hunfold, -⟩ := h function v hfun hv
    rcases hstays hr with hfunc | ⟨hon, hkept⟩
    · cases hfunc
    · rcases hunfold with hoff | hstatic
      · rw [hon] at hoff
        cases hoff
      · simp [hr, hstatic] at hkept

/-- A call of a function that is known as it stands. -/
theorem returns_unfold {f arg : Node} {t : Tag} {param : Decl Node} {body : List Node} (tag : Tag)
    (hr : env.resolve = true)
    (hf : Returns env (fun d => Eval.evalType (eval d) f) F (· = .func t param body))
    (harg : Returns env (fun d => eval d arg) F P)
    (hunfold : ∀ v, P v → env.isOnStack (.func t param body) = false ∨ v.isStatic = true)
    (hbody : ∀ v, P v → EvalsSeq ({ env.enterCall (.func t param body) with
      transparent := true }.push ⟨param.name, v, true, none⟩) body F Q) :
    Returns env (fun d => eval d (.call tag f arg)) F Q := by
  refine returns_unfolded tag hr hf harg ?_
  rintro _ v rfl hv
  exact ⟨t, param, body, rfl, hunfold v hv, hbody v hv⟩

end Residual
