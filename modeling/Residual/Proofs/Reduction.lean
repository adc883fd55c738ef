/-
Evaluation as a relation, for the core of the language: literals, names, functions, calls, operators
and aliases, with names resolved and nothing defined. `Reduces bindings n v` says that the node `n`
becomes `v` under the local bindings, and leaves out identities, the calls that are being made, the
types of parameters and all else that has no part in the result.

The relation also says that no name is captured, which evaluation does not look after. There are two
ways to capture a name. What a name stands for is put below binders of residual code that were made
later, and one of these may bear a name that is free in it. And a function that was evaluated under
its binder is evaluated again where it is called, so that its free names, which are those of
residual code, are looked up among the names of the source. `watched` is the evaluator that gives up
where either happens; `watched_reduces` says that a run of it is a reduction.
-/
import Residual.Proofs.Approximation
import Residual.Proofs.FreshName
import Residual.Proofs.Names
import Residual.Proofs.Restoration

namespace Residual

/-! ## The core language -/

namespace Node

mutual

/-- Literals, built-in types, names, functions, calls, operators other than taking a field, and
aliases of names. -/
def isCore : Node → Bool
  | lit .. | builtin .. | ident .. => true
  | func _ _ body => allCore body
  | call _ f a => f.isCore && a.isCore
  | binOp _ op lhs rhs => op != .dot && lhs.isCore && rhs.isCore
  | assign _ (ident ..) value _ _ => value.isCore
  | _ => false

def allCore : List Node → Bool
  | [] => true
  | n :: ns => n.isCore && allCore ns

end

theorem isCore_call {t : Tag} {f a : Node} :
    (call t f a).isCore = true ↔ f.isCore = true ∧ a.isCore = true := by simp [isCore]

theorem isCore_binOp {t : Tag} {op : Operator} {lhs rhs : Node} :
    (binOp t op lhs rhs).isCore = true ↔ op ≠ .dot ∧ lhs.isCore = true ∧ rhs.isCore = true := by
  simp [isCore, and_assoc]

theorem isCore_assign {t : Tag} {target value : Node} {p : Bool} {link : Option DefId} :
    (assign t target value p link).isCore = true ↔
      (∃ t' x, target = ident t' x) ∧ value.isCore = true := by
  cases target <;> simp [isCore]

theorem allCore_cons {n : Node} {ns : List Node} :
    allCore (n :: ns) = true ↔ n.isCore = true ∧ allCore ns = true := by simp [allCore]

theorem isCore_of_allCore {n : Node} : ∀ {ns : List Node}, allCore ns = true → n ∈ ns →
    n.isCore = true
  | _ :: _, h, .head _ => (allCore_cons.1 h).1
  | _ :: _, h, .tail _ hn => isCore_of_allCore (allCore_cons.1 h).2 hn

theorem exists_of_isCore_isAlias {n : Node} (h : n.isCore = true) (ha : n.isAlias = true) :
    ∃ t t' x value p link, n = assign t (ident t' x) value p link := by
  cases n with
  | assign t target value p link =>
    obtain ⟨⟨t', x, rfl⟩, -⟩ := isCore_assign.1 h
    exact ⟨t, t', x, value, p, link, rfl⟩
  | _ => cases ha

/-- A core node is a value or code, never just a type of a value. -/
theorem isPlaceholder_of_isCore {n : Node} (h : n.isCore = true) : n.isPlaceholder = false := by
  cases n <;> first | rfl | simp [isCore] at h

end Node

/-! ## Capture -/

namespace Binding

/-- The name of a binder in residual code. -/
def residual (b : Binding) : Name := b.rename.getD b.name

/-- Whether the binding is a binder of residual code. The parameter of a call that is unfolded is
none; it is known by having no other name where its own is taken. -/
def isBinder (b : Binding) (outer : List Binding) : Bool :=
  b.rename.isSome || !outer.any (·.name == b.name)

/-- The names that are put into residual code in place of the name of the binding. -/
def puts (b : Binding) : List Name := if b.value.isPlaceholder then [b.residual] else b.value.free

/-- The names that residual code has come to bind since it was known what `x` stands for. An alias
that is kept binds its name before the value is put anywhere. -/
def boundSince (x : Name) : List Binding → List Name
  | [] => []
  | b :: outer =>
    let own := if b.isBinder outer then [b.residual] else []
    if b.name = x then if b.value.isPlaceholder then [] else own else own ++ boundSince x outer

/-- None of the names is captured when it is put in place of `x`. -/
def isClear (bindings : List Binding) (x : Name) (names : List Name) : Bool :=
  (boundSince x bindings).all (!names.contains ·)

/-- A use of the name captures nothing. -/
def isUsable (bindings : List Binding) (x : Name) : Bool :=
  match bindings.find? (·.name == x) with
  | some b => isClear bindings x b.puts
  | none => true

/-- A function can be evaluated again: each of its free names is found to be the parameter that it
names, or is not found. -/
def isReadable (bindings : List Binding) (n : Node) : Bool :=
  !n.isFunc || n.free.all fun x =>
    match bindings.find? (·.name == x) with
    | some b => b.value.isPlaceholder && b.residual == x && isClear bindings x [x]
    | none => (Builtin.ofName? x).isNone

end Binding

/-! ## The watched evaluator -/

/-- What a pass would result in, with nothing done. -/
def Pass.peek {α : Type} (m : Pass α) : Pass (Option α) := fun s => (.ok (m.runOn s).1.toOption, s)

namespace Eval

/-- A step of evaluation that gives up where a name would be captured. -/
def watch (eval : Node → Pass Node) (n : Node) : Pass Node := do
  let bindings := (← Pass.env).locals.bindings
  match n with
  | .ident _ x => if Binding.isUsable bindings x then step eval n else throw .exhausted
  | .call _ callee _ =>
    let function? ← Pass.peek (evalType eval callee)
    if function?.all (Binding.isReadable bindings) then step eval n else throw .exhausted
  | _ => step eval n

end Eval

/-- The evaluator that gives up where a name would be captured. -/
def watched : (depth : Nat) → Node → Pass Node
  | 0, _ => throw .exhausted
  | depth + 1, n => Eval.watch (watched depth) n

/-! ## Reduction -/

mutual

/-- Under the bindings a node becomes another one, and no name is captured. -/
inductive Reduces : List Binding → Node → Node → Prop where
  | lit {bs : List Binding} {t : Tag} {value : Literal} : Reduces bs (.lit t value) (.lit t value)
  | builtin {bs : List Binding} {t : Tag} {b : Builtin} : Reduces bs (.builtin t b) (.builtin t b)
  | builtinName {bs : List Binding} {t t' : Tag} {x : Name} {b : Builtin}
    (hx : bs.find? (·.name == x) = none) (hb : Builtin.ofName? x = some b) :
    Reduces bs (.ident t x) (.builtin t' b)
  | known {bs : List Binding} {t : Tag} {x : Name} {b : Binding}
    (hx : bs.find? (·.name == x) = some b) (hknown : b.value.isPlaceholder = false)
    (hclear : Binding.isClear bs x b.puts = true) : Reduces bs (.ident t x) b.value
  | unknown {bs : List Binding} {t t' : Tag} {x : Name} {b : Binding}
    (hx : bs.find? (·.name == x) = some b) (hunknown : b.value.isPlaceholder = true)
    (hclear : Binding.isClear bs x b.puts = true) : Reduces bs (.ident t x) (.ident t' b.residual)
  | func {bs : List Binding} {t t' : Tag} {param : Decl Node} {ty : Node} {body body' : List Node}
    {b : Binding} (hname : b.name = param.name) (hunknown : b.value.isPlaceholder = true)
    (hbinder : b.isBinder bs = true) (hbody : ReducesAll (b :: bs) body body') :
    Reduces bs (.func t param body) (.func t' { param with name := b.residual, ty } body')
  | unfold {bs : List Binding} {t t' : Tag} {callee arg v : Node} {param : Decl Node}
    {body items : List Node} {b : Binding} (hf : Reduces bs callee (.func t' param body))
    (ha : Reduces bs arg b.value) (hname : b.name = param.name)
    (hread : Binding.isReadable bs (.func t' param body) = true)
    (hbody : ReducesAll (b :: bs) body items) (hlast : items.getLast? = some v) :
    Reduces bs (.call t callee arg) v
  | stay {bs : List Binding} {t t' : Tag} {callee arg function value : Node}
    (hf : Reduces bs callee function) (ha : Reduces bs arg value)
    (hstay : function.isFunc = false ∨ value.isStatic = false) :
    Reduces bs (.call t callee arg) (.call t' function value)
  | fold {bs : List Binding} {t t' : Tag} {op : Operator} {lhs rhs a b : Node} {value : Literal}
    (ha : Reduces bs lhs a) (hb : Reduces bs rhs b)
    (hfold : (do op.fold (← a.number?) (← b.number?)) = some value) :
    Reduces bs (.binOp t op lhs rhs) (.lit t' value)
  | keep {bs : List Binding} {t t' : Tag} {op : Operator} {lhs rhs a b : Node}
    (ha : Reduces bs lhs a) (hb : Reduces bs rhs b)
    (hfold : (do op.fold (← a.number?) (← b.number?)) = none) :
    Reduces bs (.binOp t op lhs rhs) (.binOp t' op a b)
  | assign {bs : List Binding} {t t' : Tag} {target value v : Node} {p : Bool}
    {link link' : Option DefId} (h : Reduces bs value v) :
    Reduces bs (.assign t target value p link) (.assign t' target v p link')

/-- The nodes of a sequence, each under the bindings of the aliases before it. -/
inductive ReducesAll : List Binding → List Node → List Node → Prop where
  | nil {bs : List Binding} : ReducesAll bs [] []
  | bind {bs : List Binding} {t t' u u' : Tag} {value : Node} {p : Bool}
    {link link' : Option DefId} {rest rest' : List Node} {b : Binding} (h : Reduces bs value b.value)
    (hbinder : b.isBinder bs = true) (hrest : ReducesAll (b :: bs) rest rest') :
    ReducesAll bs (.assign t (.ident t' b.name) value p link :: rest)
      (.assign u (.ident u' b.residual) b.value p link' :: rest')
  /-- A name may stand for an alias, which then binds where the name is used. -/
  | leak {bs : List Binding} {t t' u u' : Tag} {n : Node} {p : Bool} {link link' : Option DefId}
    {rest rest' : List Node} {b : Binding} (hn : n.isAlias = false)
    (h : Reduces bs n (.assign t (.ident t' b.name) b.value p link))
    (hbinder : b.isBinder bs = true) (hrest : ReducesAll (b :: bs) rest rest') :
    ReducesAll bs (n :: rest) (.assign u (.ident u' b.residual) b.value p link' :: rest')
  | next {bs : List Binding} {n v : Node} {rest rest' : List Node} (h : Reduces bs n v)
    (hv : v.isAlias = false) (hrest : ReducesAll bs rest rest') :
    ReducesAll bs (n :: rest) (v :: rest')

end

/-- What is known of the bindings is core code. -/
def CoreBindings (bs : List Binding) : Prop :=
  ∀ b ∈ bs, b.value.isPlaceholder = true ∨ b.value.isCore = true

theorem CoreBindings.cons {bs : List Binding} {b : Binding}
    (hb : b.value.isPlaceholder = true ∨ b.value.isCore = true) (h : CoreBindings bs) :
    CoreBindings (b :: bs) := List.forall_mem_cons.2 ⟨hb, h⟩

open Node

mutual

/-- The core language is closed under reduction. -/
theorem Reduces.isCore : ∀ {bs : List Binding} {n v : Node}, Reduces bs n v → CoreBindings bs →
    n.isCore = true → v.isCore = true
  | _, _, _, .lit, _, _ | _, _, _, .builtin, _, _ | _, _, _, .builtinName .., _, _ => rfl
  | _, _, _, .unknown .., _, _ => rfl
  | _, _, _, .known hx hknown _, hbs, _ => by
    have hb := hbs _ (List.mem_of_find?_eq_some hx)
    rw [hknown] at hb
    exact hb.resolve_left (by simp)
  | _, _, _, .func _ hunknown _ hbody, hbs, hn => hbody.allCore (hbs.cons (.inl hunknown)) hn
  | _, _, _, .unfold hf ha _ _ hbody hlast, hbs, hn => by
    obtain ⟨hcallee, harg⟩ := isCore_call.1 hn
    have hitems := hbody.allCore (hbs.cons (.inr (ha.isCore hbs harg))) (hf.isCore hbs hcallee)
    exact isCore_of_allCore hitems (List.mem_of_getLast? hlast)
  | _, _, _, .stay hf ha _, hbs, hn => by
    obtain ⟨hcallee, harg⟩ := isCore_call.1 hn
    exact isCore_call.2 ⟨hf.isCore hbs hcallee, ha.isCore hbs harg⟩
  | _, _, _, .fold .., _, _ => rfl
  | _, _, _, .keep ha hb _, hbs, hn => by
    obtain ⟨hop, hlhs, hrhs⟩ := isCore_binOp.1 hn
    exact isCore_binOp.2 ⟨hop, ha.isCore hbs hlhs, hb.isCore hbs hrhs⟩
  | _, _, _, .assign h, hbs, hn => by
    obtain ⟨htarget, hvalue⟩ := isCore_assign.1 hn
    exact isCore_assign.2 ⟨htarget, h.isCore hbs hvalue⟩

theorem ReducesAll.allCore : ∀ {bs : List Binding} {ns vs : List Node}, ReducesAll bs ns vs →
    CoreBindings bs → allCore ns = true → allCore vs = true
  | _, _, _, .nil, _, _ => rfl
  | _, _, _, .bind h _ hrest, hbs, hns => by
    obtain ⟨hn, hns⟩ := allCore_cons.1 hns
    have hvalue := h.isCore hbs (isCore_assign.1 hn).2
    exact allCore_cons.2 ⟨hvalue, hrest.allCore (hbs.cons (.inr hvalue)) hns⟩
  | _, _, _, .leak _ h _ hrest, hbs, hns => by
    obtain ⟨hn, hns⟩ := allCore_cons.1 hns
    have hvalue := (isCore_assign.1 (h.isCore hbs hn)).2
    exact allCore_cons.2 ⟨hvalue, hrest.allCore (hbs.cons (.inr hvalue)) hns⟩
  | _, _, _, .next h _ hrest, hbs, hns => by
    obtain ⟨hn, hns⟩ := allCore_cons.1 hns
    exact allCore_cons.2 ⟨h.isCore hbs hn, hrest.allCore hbs hns⟩

end

/-! ## Runs -/

/-- Names are resolved, nothing is defined, and what is known of the locals is core code. -/
structure Env.IsCore (env : Env) : Prop where
  resolve : env.resolve = true
  undefined : ∀ x, env.store.lookup x = none
  bindings : CoreBindings env.locals.bindings

theorem Env.IsCore.lookup_eq {env : Env} (h : env.IsCore) (x : Name) :
    env.lookup x = match env.locals.bindings.find? (·.name == x) with
      | some b => some (.bound b)
      | none => (Builtin.ofName? x).map .builtin := by
  rw [lookup, Locals.find?_eq]
  cases env.locals.bindings.find? (·.name == x) with
  | some b => rfl
  | none => simp only [h.undefined]

theorem Env.IsCore.push {env : Env} {b : Binding} (h : env.IsCore)
    (hb : b.value.isPlaceholder = true ∨ b.value.isCore = true) : (env.push b).IsCore :=
  { h with bindings := h.bindings.cons hb }

open Pass

theorem restores_watch {eval : Node → Pass Node} (h : ∀ n, Restores (eval n)) (n : Node) :
    Restores (Eval.watch eval n) := by
  refine restores_env.bind fun env => ?_
  dsimp only
  split
  · split
    · exact Eval.restores_step h _
    · exact restores_throw _
  · refine Restores.bind (fun _ => ⟨rfl, Nat.le_refl _⟩) fun function => ?_
    split
    · exact Eval.restores_step h _
    · exact restores_throw _
  · exact Eval.restores_step h _

theorem restores_watched : ∀ (depth : Nat) (n : Node), Restores (watched depth n)
  | 0, _ => restores_throw _
  | depth + 1, n => restores_watch (restores_watched depth) n

theorem approximates_watch (eval : Node → Pass Node) (n : Node) :
    Approximates (Eval.watch eval n) (Eval.step eval n) := fun s hs => by
  unfold Eval.watch at hs ⊢
  rw [runOn_bind, runOn_env] at hs ⊢
  dsimp only at hs ⊢
  split at hs
  · split at hs
    · rename_i husable
      rw [if_pos husable]
    · exact absurd rfl hs
  · rw [runOn_bind] at hs ⊢
    dsimp only [runOn, peek] at hs ⊢
    split at hs
    · rename_i hreadable
      rw [if_pos hreadable]
    · exact absurd rfl hs
  · rfl

/-- A run that is not given up is a run of the evaluator. -/
theorem approximates_watched : ∀ (depth : Nat) (n : Node),
    Approximates (watched depth n) (eval depth n)
  | 0, _ => approximates_refl _
  | depth + 1, n => (approximates_watch _ n).trans
    (Eval.approximates_step (approximates_watched depth) n)

/-- A binder whose name was chosen afresh is one of residual code. -/
theorem Binding.isBinder_of_freshName {env : Env} {b : Binding}
    (h : b.rename = env.freshName b.name) : b.isBinder env.locals.bindings = true := by
  cases htaken : env.isTaken b.name with
  | true =>
    obtain ⟨k, hk, -⟩ := Env.freshName_of_taken htaken
    rw [isBinder, h, hk]
    rfl
  | false =>
    rw [Env.isTaken, Locals.contains_eq, Bool.or_eq_false_iff] at htaken
    rw [isBinder, htaken.1]
    simp

namespace Eval

theorem reduces_evalIdent {s t : Machine} {tag : Tag} {x : Name} {v : Node} (hs : s.env.IsCore)
    (husable : Binding.isUsable s.env.locals.bindings x = true)
    (h : (evalIdent tag x).runOn s = (.ok v, t)) :
    Reduces s.env.locals.bindings (.ident tag x) v := by
  unfold evalIdent at h
  obtain ⟨env, s', henv, h⟩ := runOn_bind_ok h
  rw [runOn_env] at henv
  cases henv
  rw [hs.lookup_eq] at h
  cases hx : s.env.locals.bindings.find? (·.name == x) with
  | some b =>
    rw [Binding.isUsable, hx] at husable
    rw [hx] at h
    dsimp only at h
    split at h
    · rename_i hknown
      cases h
      have hknown : b.value.isPlaceholder = false := by
        rw [Bool.and_eq_true] at hknown
        simpa [Found.isPlaceholder] using hknown.1
      exact .known hx hknown husable
    · rename_i hunknown
      have hunknown : b.value.isPlaceholder = true := by
        rw [hs.resolve] at hunknown
        simpa [Found.isPlaceholder] using hunknown
      have hname : b.name = x := by simpa using List.find?_some hx
      obtain ⟨t', rfl⟩ : ∃ t', v = .ident t' b.residual := by
        rw [Binding.residual, hname]
        cases hrename : b.rename with
        | some other =>
          rw [Found.rename?, hrename] at h
          cases h
          exact ⟨_, rfl⟩
        | none =>
          rw [Found.rename?, hrename] at h
          cases h
          exact ⟨_, rfl⟩
      exact .unknown hx hunknown husable
  | none =>
    rw [hx] at h
    dsimp only at h
    cases hb : Builtin.ofName? x with
    | none =>
      rw [hb] at h
      cases h
    | some b =>
      rw [hb] at h
      dsimp only [Option.map, Found.isPlaceholder] at h
      rw [hs.resolve] at h
      cases h
      exact .builtinName hx hb

/-- Binding an alias pushes its value, and the alias goes on under the name of the binder. -/
theorem bindLocal_alias {s t : Machine} {tag nameTag : Tag} {x : Name} {value v : Node} {p : Bool}
    {link : Option DefId}
    (h : (bindLocal (.assign tag (.ident nameTag x) value p link)).runOn s = (.ok v, t)) :
    ∃ (b : Binding) (u u' : Tag) (link' : Option DefId), b.name = x ∧ b.value = value ∧
      b.isBinder s.env.locals.bindings = true ∧ t.env = s.env.push b ∧
      v = .assign u (.ident u' b.residual) value p link' := by
  unfold bindLocal at h
  obtain ⟨env, s', henv, h⟩ := runOn_bind_ok h
  rw [runOn_env] at henv
  cases henv
  obtain ⟨_, s', hpush, h⟩ := runOn_bind_ok h
  rw [runOn_push] at hpush
  cases hpush
  have hbinder : (⟨x, value, p || s.env.transparent, s.env.freshName x⟩ : Binding).isBinder
    s.env.locals.bindings = true := Binding.isBinder_of_freshName rfl
  cases hrename : s.env.freshName x with
  | some other =>
    rw [hrename] at h hbinder
    cases h
    exact ⟨_, _, _, _, rfl, rfl, hbinder, rfl, rfl⟩
  | none =>
    rw [hrename] at h hbinder
    cases h
    exact ⟨_, _, _, _, rfl, rfl, hbinder, rfl, rfl⟩

section

variable {eval : Node → Pass Node} (restores : ∀ n, Restores (eval n))
  (ih : ∀ {n v : Node} {s t : Machine}, (eval n).runOn s = (.ok v, t) → s.env.IsCore →
    n.isCore = true → Reduces s.env.locals.bindings n v)

include restores ih

theorem reducesAll_mapM : ∀ {ns vs : List Node} {s t : Machine},
    (ns.mapM fun n => do bindLocal (← eval n)).runOn s = (.ok vs, t) → s.env.IsCore →
      allCore ns = true → ReducesAll s.env.locals.bindings ns vs
  | [], _, _, _, h, _, _ => by
    rw [List.mapM_nil] at h
    cases h
    exact .nil
  | n :: ns, _, s, _, h, hs, hns => by
    rw [List.mapM_cons] at h
    obtain ⟨hn, hns⟩ := allCore_cons.1 hns
    obtain ⟨v, s₂, hv, h⟩ := runOn_bind_ok h
    obtain ⟨w, s₁, hw, hv⟩ := runOn_bind_ok hv
    obtain ⟨vs, s₃, hvs, h⟩ := runOn_bind_ok h
    obtain ⟨rfl, rfl⟩ := runOn_pure_ok h
    have henv : s₁.env = s.env := (restores n).env_eq hw
    have hreduces := ih hw hs hn
    have hcore := hreduces.isCore hs.bindings hn
    cases hw' : w.isAlias with
    | false =>
      rw [bindLocal_of_not_isAlias hw'] at hv
      obtain ⟨rfl, rfl⟩ := runOn_pure_ok hv
      refine .next hreduces hw' ?_
      rw [← henv]
      exact reducesAll_mapM hvs (henv ▸ hs) hns
    | true =>
      obtain ⟨tag, nameTag, x, value, p, link, rfl⟩ := exists_of_isCore_isAlias hcore hw'
      obtain ⟨b, u, u', link', rfl, rfl, hbinder, hpush, rfl⟩ := bindLocal_alias hv
      rw [henv] at hbinder hpush
      have hs₂ : s₂.env.IsCore := hpush ▸ hs.push (.inr (isCore_assign.1 hcore).2)
      have hrest := reducesAll_mapM hvs hs₂ hns
      rw [hpush] at hrest
      cases hn' : n.isAlias with
      | false => exact .leak hn' hreduces hbinder hrest
      | true =>
        obtain ⟨_, _, _, _, _, _, rfl⟩ := exists_of_isCore_isAlias hn hn'
        cases hreduces with
        | assign hvalue => exact .bind hvalue hbinder hrest

theorem reducesAll_evalSeq {ns vs : List Node} {s t : Machine}
    (h : (evalSeq eval ns).runOn s = (.ok vs, t)) (hs : s.env.IsCore) (hns : allCore ns = true) :
    ReducesAll s.env.locals.bindings ns vs := by
  obtain ⟨t', h, -⟩ := runOn_under_ok h
  exact reducesAll_mapM restores ih h hs hns

omit restores in
theorem reduces_evalType {n v : Node} {s t : Machine} (h : (evalType eval n).runOn s = (.ok v, t))
    (hs : s.env.IsCore) (hn : n.isCore = true) : Reduces s.env.locals.bindings n v := by
  obtain ⟨t', h, -⟩ := runOn_under_ok h
  have hreduces := ih h { hs with resolve := rfl } hn
  exact hreduces

theorem reduces_evalFunc {tag : Tag} {param : Decl Node} {body : List Node} {v : Node}
    {s t : Machine} (h : (evalFunc eval tag param body).runOn s = (.ok v, t)) (hs : s.env.IsCore)
    (hbody : allCore body = true) : Reduces s.env.locals.bindings (.func tag param body) v := by
  unfold evalFunc at h
  obtain ⟨ty, s₁, hty, h⟩ := runOn_bind_ok h
  have henv : s₁.env = s.env := (restores_evalType restores param.ty).env_eq hty
  obtain ⟨placeholderTag, s₂, htag, h⟩ := runOn_bind_ok h
  replace henv : s₂.env = s.env := ((restores_tagAt _).env_eq htag).trans henv
  obtain ⟨env, s₃, henv', h⟩ := runOn_bind_ok h
  cases henv'
  obtain ⟨body', s₄, hbody', h⟩ := runOn_bind_ok h
  obtain ⟨s₅, hbody', -⟩ := runOn_under_ok hbody'
  obtain ⟨s₆, hbody', -⟩ := runOn_under_ok hbody'
  cases h
  have hunknown : (if ty.isType then Node.selfType placeholderTag ty
      else .unknown placeholderTag).isPlaceholder = true := by split <;> rfl
  generalize (if ty.isType then Node.selfType placeholderTag ty
    else .unknown placeholderTag) = value at hbody' hunknown
  rw [← henv]
  have hbinder : (⟨param.name, value, false, s₂.env.freshName param.name⟩ : Binding).isBinder
    s₂.env.locals.bindings = true := Binding.isBinder_of_freshName rfl
  have hcore := (henv ▸ hs : s₂.env.IsCore).push
    (b := ⟨param.name, value, false, s₂.env.freshName param.name⟩) (.inl hunknown)
  have hall := reducesAll_evalSeq restores ih hbody' { hcore with } hbody
  exact .func rfl hunknown hbinder hall

/-- The body of a function, with the parameter bound to an argument. -/
theorem reducesAll_apply {callee : Node} {param : Decl Node} {body : List Node} {arg v : Node}
    {site : Span} {s t : Machine} (h : (apply eval callee param body arg site).runOn s = (.ok v, t))
    (hs : s.env.IsCore) (hbody : allCore body = true) (harg : arg.isCore = true) :
    ∃ items, ReducesAll (⟨param.name, arg, true, none⟩ :: s.env.locals.bindings) body items ∧
      items.getLast? = some v := by
  unfold apply at h
  obtain ⟨s₁, h, -⟩ := runOn_under_ok h
  obtain ⟨s₂, h, -⟩ := runOn_under_ok h
  obtain ⟨s₃, h, -⟩ := runOn_under_ok h
  obtain ⟨items, s₄, hitems, h⟩ := runOn_bind_ok h
  have hcore := hs.push (b := ⟨param.name, arg, true, none⟩) (.inr harg)
  have hall := reducesAll_evalSeq restores ih hitems { hcore with } hbody
  refine ⟨items, hall, ?_⟩
  have henv := (restores_evalSeq restores body).env_eq hitems
  unfold seqValue at h
  obtain ⟨env, s₅, henv', h⟩ := runOn_bind_ok h
  cases henv'
  have hresolve : s₄.env.resolve = true := by
    rw [henv]
    exact hs.resolve
  rw [hresolve] at h
  split at h
  · split at h
    · rename_i last hlast
      obtain ⟨rfl, -⟩ := runOn_pure_ok h
      exact hlast
    · cases h
  · simp at *

omit restores ih in
/-- Without definitions, a callee that stays is what it was evaluated to. -/
theorem keptCallee_eq {env : Env} {callee function kept : Node} {s t : Machine}
    (h : (keptCallee env callee function).runOn s = (.ok kept, t)) (hresolve : env.resolve = true)
    (hs : s.env.IsCore) (hf : Reduces s.env.locals.bindings callee function) : kept = function := by
  have hkept : (residualCallee callee function).runOn s = (.ok kept, t) := by
    unfold keptCallee at h
    rw [hresolve] at h
    exact h
  unfold residualCallee at hkept
  split at hkept
  · rename_i tag name
    obtain ⟨env', s', henv', hkept⟩ := runOn_bind_ok hkept
    cases henv'
    rw [hs.lookup_eq] at hkept
    cases hfunc : function.isFunc with
    | false =>
      rw [hfunc] at hkept
      exact (runOn_pure_ok hkept).1.symm
    | true =>
      -- a name that becomes a function is bound
      cases hf with
      | known hx =>
        rw [hx, hfunc] at hkept
        exact (runOn_pure_ok hkept).1.symm
      | builtinName => cases hfunc
      | unknown => cases hfunc
  · exact (runOn_pure_ok hkept).1.symm

theorem reduces_evalCall {tag : Tag} {callee arg v : Node} {s t : Machine}
    (h : (evalCall eval tag callee arg).runOn s = (.ok v, t)) (hs : s.env.IsCore)
    (hcallee : callee.isCore = true) (harg : arg.isCore = true)
    (hread : ∀ function s', (evalType eval callee).runOn s = (.ok function, s') →
      Binding.isReadable s.env.locals.bindings function = true) :
    Reduces s.env.locals.bindings (.call tag callee arg) v := by
  unfold evalCall at h
  obtain ⟨function, s₁, hfunction, h⟩ := runOn_bind_ok h
  have henv₁ : s₁.env = s.env := (restores_evalType restores callee).env_eq hfunction
  obtain ⟨value, s₂, hvalue, h⟩ := runOn_bind_ok h
  have henv₂ : s₂.env = s.env := ((restores arg).env_eq hvalue).trans henv₁
  obtain ⟨env, s₃, henv', h⟩ := runOn_bind_ok h
  cases henv'
  obtain ⟨result, s₄, hresult, h⟩ := runOn_bind_ok h
  have hf := reduces_evalType ih hfunction hs hcallee
  have ha := ih hvalue (henv₁ ▸ hs) harg
  rw [henv₁] at ha
  have hfcore := hf.isCore hs.bindings hcallee
  have hacore := ha.isCore hs.bindings harg
  have hresolve : s₂.env.resolve = true := henv₂ ▸ hs.resolve
  rw [hresolve] at h
  unfold unfoldCall at hresult
  split at hresult
  · rename_i t' param body
    split at hresult
    · rename_i hunfold
      rw [runOn_map] at hresult
      split at hresult
      · rename_i r s₅ happly
        cases hresult
        cases h
        obtain ⟨items, hitems, hlast⟩ :=
          reducesAll_apply restores ih happly (henv₂ ▸ hs) hfcore hacore
        rw [henv₂] at hitems
        exact .unfold hf ha rfl (hread _ _ hfunction) hitems hlast
      · cases hresult
    · rename_i hstack
      obtain ⟨rfl, rfl⟩ := runOn_pure_ok hresult
      obtain ⟨kept, s₅, hkept, h⟩ := runOn_bind_ok h
      cases h
      cases keptCallee_eq hkept hresolve (henv₂ ▸ hs) (henv₂ ▸ hf)
      refine .stay hf ha (.inr ?_)
      rw [hresolve] at hstack
      simp only [Bool.or_eq_true, Bool.true_and, not_or] at hstack
      simpa using hstack.2
  · rename_i hfunc
    obtain ⟨rfl, rfl⟩ := runOn_pure_ok hresult
    obtain ⟨kept, s₅, hkept, h⟩ := runOn_bind_ok h
    cases h
    cases keptCallee_eq hkept hresolve (henv₂ ▸ hs) (henv₂ ▸ hf)
    refine .stay hf ha (.inl ?_)
    cases function <;> first | rfl | exact absurd rfl (hfunc _ _ _)

theorem reduces_evalBinOp {tag : Tag} {op : Operator} {lhs rhs v : Node} {s t : Machine}
    (h : (evalBinOp eval tag op lhs rhs).runOn s = (.ok v, t))
    (hs : s.env.IsCore) (hop : op ≠ .dot) (hlhs : lhs.isCore = true) (hrhs : rhs.isCore = true) :
    Reduces s.env.locals.bindings (.binOp tag op lhs rhs) v := by
  unfold evalBinOp at h
  rw [if_neg hop] at h
  obtain ⟨a, s₁, ha, h⟩ := runOn_bind_ok h
  have henv : s₁.env = s.env := (restores lhs).env_eq ha
  obtain ⟨b, s₂, hb, h⟩ := runOn_bind_ok h
  have hareduces := ih ha hs hlhs
  have hbreduces := ih hb (henv ▸ hs) hrhs
  rw [henv] at hbreduces
  dsimp only at h
  split at h
  · rename_i value hfold
    cases h
    exact .fold hareduces hbreduces hfold
  · rename_i hfold
    cases h
    exact .keep hareduces hbreduces hfold

/-- A step that is not given up is a reduction if those of the parts are. -/
theorem reduces_watch {n v : Node} {s t : Machine} (h : (watch eval n).runOn s = (.ok v, t))
    (hs : s.env.IsCore) (hn : n.isCore = true) : Reduces s.env.locals.bindings n v := by
  unfold watch at h
  obtain ⟨env, s₁, henv, h⟩ := runOn_bind_ok h
  cases henv
  cases n with
  | lit => cases h; exact .lit
  | builtin => cases h; exact .builtin
  | ident tag x =>
    dsimp only at h
    split at h
    · rename_i husable
      exact reduces_evalIdent hs husable h
    · cases h
  | func tag param body => exact reduces_evalFunc restores ih h hs hn
  | call tag callee arg =>
    obtain ⟨hcallee, harg⟩ := isCore_call.1 hn
    obtain ⟨function?, s₂, hpeek, h⟩ := runOn_bind_ok h
    cases hpeek
    split at h
    · rename_i hread
      refine reduces_evalCall restores ih h hs hcallee harg fun function s' hfunction => ?_
      rw [hfunction] at hread
      exact hread
    · cases h
  | binOp tag op lhs rhs =>
    obtain ⟨hop, hlhs, hrhs⟩ := isCore_binOp.1 hn
    exact reduces_evalBinOp restores ih h hs hop hlhs hrhs
  | assign tag target value p link =>
    obtain ⟨v, s₂, hv, h⟩ := runOn_bind_ok h
    obtain ⟨env, s₃, henv, h⟩ := runOn_bind_ok h
    cases h
    exact .assign (ih hv hs (isCore_assign.1 hn).2)
  | _ => simp [Node.isCore] at hn

end

end Eval

/-- A run that is not given up is a reduction. -/
theorem watched_reduces : ∀ {depth : Nat} {n v : Node} {s t : Machine},
    (watched depth n).runOn s = (.ok v, t) → s.env.IsCore → n.isCore = true →
      Reduces s.env.locals.bindings n v
  | 0, _, _, _, _, h, _, _ => by cases h
  | depth + 1, _, _, _, _, h, hs, hn =>
    Eval.reduces_watch (restores_watched depth) watched_reduces h hs hn

end Residual
