/-
Evaluation does not see what the identities of nodes are, only which of them are the same. If all
nodes of an environment are relabeled, each pass of the evaluator does the same as before, and its
results are relabeled in the same way; the identities that it makes are shifted with the counter.

Two things follow. Identities of results come from the arguments or from the counter, so a result is
as old as the counter at the end (`Older`). And a pass that starts with another counter ends with the
same result up to its identities.
-/
import Residual.Proofs.Approximation
import Residual.Proofs.FreshName
import Residual.Proofs.Relabeling

namespace Residual

/-! ## Environments under other tags -/

section

variable (r : Relabeling)

def Binding.relabel (b : Binding) : Binding := { b with value := b.value.relabel r }

def Locals.relabel (ls : Locals) : Locals where
  bindings := ls.bindings.map (Binding.relabel r)
  size := ls.size
  levels := Binding.levels (ls.bindings.map (Binding.relabel r))
  size_eq := by rw [List.length_map, ls.size_eq]
  levels_eq := rfl

def Calls.relabel (calls : Calls) : Calls := .ofNodes (calls.nodes.map (Node.relabel r))

def Definitions.relabel (defs : Definitions) : Definitions :=
  ⟨defs.entries.map fun entry => (entry.1, entry.2.relabel r)⟩

def Found.relabel : Found → Found
  | bound b => bound (b.relabel r)
  | defined d value => defined d (value.relabel r)
  | builtin b => builtin b

def Env.relabel (env : Env) : Env :=
  { env with
    locals := env.locals.relabel r
    calls := env.calls.relabel r
    store := env.store.relabel r
    links := env.links.relabel r }

/-- The machine with its nodes relabeled, and with a counter that is ahead by `k`. -/
def Machine.relabel (k : Nat) (s : Machine) : Machine := ⟨s.env.relabel r, ⟨s.nodes.next + k⟩⟩

namespace Locals

theorem relabel_push (ls : Locals) (b : Binding) :
    (ls.push b).relabel r = (ls.relabel r).push (b.relabel r) := eq_of_bindings_eq rfl

theorem relabel_truncate (ls : Locals) (n : Nat) :
    (ls.truncate n).relabel r = (ls.relabel r).truncate n := by
  apply eq_of_bindings_eq
  simp only [relabel, truncate, List.map_drop]

theorem find?_relabel (ls : Locals) (x : Name) :
    (ls.relabel r).find? x = (ls.find? x).map (Binding.relabel r) := by
  rw [find?_eq, find?_eq, relabel, List.find?_map]
  rfl

theorem contains_relabel (ls : Locals) (x : Name) : (ls.relabel r).contains x = ls.contains x := by
  rw [contains, find?_relabel, Option.isSome_map, contains]

end Locals

theorem Calls.relabel_enter (calls : Calls) (n : Node) :
    (calls.enter n).relabel r = (calls.relabel r).enter (n.relabel r) := eq_of_nodes_eq rfl

namespace Definitions

theorem find?_relabel (defs : Definitions) (x : Name) : (defs.relabel r).find? x = defs.find? x := by
  rw [find?, relabel, List.findIdx?_map]
  rfl

theorem lookup_relabel (defs : Definitions) (x : Name) :
    (defs.relabel r).lookup x = (defs.lookup x).map fun found => (found.1, found.2.relabel r) := by
  unfold lookup
  rw [find?_relabel]
  cases defs.find? x with
  | none => rfl
  | some d =>
    have hget : (defs.relabel r).get? d =
        (defs.get? d).map fun entry => (entry.1, entry.2.relabel r) := List.getElem?_map
    simp only [Option.bind_eq_bind, Option.bind_some, hget]
    cases defs.get? d <;> rfl

theorem contains_relabel (defs : Definitions) (x : Name) :
    (defs.relabel r).contains x = defs.contains x := by
  rw [contains_eq, lookup_relabel, Option.isSome_map, contains_eq]

end Definitions

namespace Found

@[simp] theorem isTransparent_relabel (found : Found) :
    (found.relabel r).isTransparent = found.isTransparent := by cases found <;> rfl

@[simp] theorem rename?_relabel (found : Found) : (found.relabel r).rename? = found.rename? := by
  cases found <;> rfl

@[simp] theorem isPlaceholder_relabel (found : Found) :
    (found.relabel r).isPlaceholder = found.isPlaceholder := by
  cases found with
  | bound b => exact Node.isPlaceholder_relabel r b.value
  | defined d value => exact Node.isPlaceholder_relabel r value
  | builtin => rfl

end Found

namespace Env

variable (env : Env)

theorem relabel_push (b : Binding) : (env.push b).relabel r = (env.relabel r).push (b.relabel r) := by
  rw [push, relabel, Locals.relabel_push]
  rfl

theorem relabel_enterCall (n : Node) :
    (env.enterCall n).relabel r = (env.relabel r).enterCall (n.relabel r) := by
  rw [enterCall, relabel, Calls.relabel_enter]
  rfl

theorem lookup_relabel (x : Name) :
    (env.relabel r).lookup x = (env.lookup x).map (Found.relabel r) := by
  unfold lookup
  have hlocals : (env.relabel r).locals.find? x = (env.locals.find? x).map (Binding.relabel r) :=
    Locals.find?_relabel r env.locals x
  have hstore : (env.relabel r).store.lookup x =
      (env.store.lookup x).map fun found => (found.1, found.2.relabel r) :=
    Definitions.lookup_relabel r env.store x
  rw [hlocals, hstore]
  cases env.locals.find? x with
  | some b => rfl
  | none =>
    cases env.store.lookup x with
    | some found => rfl
    | none => cases Builtin.ofName? x <;> rfl

theorem isTaken_relabel (x : Name) : (env.relabel r).isTaken x = env.isTaken x := by
  have hlocals : (env.relabel r).locals.contains x = env.locals.contains x :=
    Locals.contains_relabel r env.locals x
  have hstore : (env.relabel r).store.contains x = env.store.contains x :=
    Definitions.contains_relabel r env.store x
  rw [isTaken, hlocals, hstore, isTaken]

@[simp] theorem freshName_relabel (x : Name) : (env.relabel r).freshName x = env.freshName x :=
  freshName_congr (isTaken_relabel r env x) fun _ => isTaken_relabel r env _

variable {r}

theorem isOnStack_relabel (hr : Function.Injective r.id) (n : Node) :
    (env.relabel r).isOnStack (n.relabel r) = env.isOnStack n := by
  have hsame (m : Node) : (m.relabel r).isSame (n.relabel r) = m.isSame n := by
    rw [Node.isSame, Node.id_relabel, Node.id_relabel, Bool.eq_iff_iff, beq_iff_eq, hr.eq_iff,
      Node.isSame, beq_iff_eq]
  rw [isOnStack, isOnStack, Calls.contains_eq, Calls.contains_eq]
  show (env.calls.nodes.map (Node.relabel r)).any (·.isSame (n.relabel r)) = _
  rw [List.any_map]
  exact congrArg _ (funext hsame)

end Env

/-- Two guards that do the same to an environment before and after a relabeling. -/
structure Guard.Follows (g g' : Guard) : Prop where
  enter : ∀ env, (g.enter env).relabel r = g'.enter (env.relabel r)
  leave : ∀ before after, (g.leave before after).relabel r =
    g'.leave (before.relabel r) (after.relabel r)

namespace Guard

theorem closeScope_relabel (before after : Env) :
    (closeScope before after).relabel r = closeScope (before.relabel r) (after.relabel r) := by
  rw [closeScope, Env.relabel, Locals.relabel_truncate]
  rfl

theorem follows_scope : scope.Follows r scope := ⟨fun _ => rfl, closeScope_relabel r⟩

theorem follows_binding (b : Binding) : (binding b).Follows r (binding (b.relabel r)) :=
  ⟨fun env => env.relabel_push r b, closeScope_relabel r⟩

theorem follows_call (n : Node) : (call n).Follows r (call (n.relabel r)) :=
  ⟨fun env => env.relabel_enterCall r n, closeScope_relabel r⟩

theorem follows_resolve (b : Bool) : (resolve b).Follows r (resolve b) :=
  ⟨fun _ => rfl, fun _ _ => rfl⟩

theorem follows_transparent (b : Bool) : (transparent b).Follows r (transparent b) :=
  ⟨fun _ => rfl, fun _ _ => rfl⟩

end Guard

end

/-! ## Passes -/

namespace Pass

variable {α α' β β' : Type} {r : Relabeling} {k : Nat}

/-- The pass never finds a function where the type of a callee tells otherwise. -/
def Consistent (m : Pass α) : Prop :=
  ∀ ⦃s t : Machine⦄ ⦃func ty : Node⦄, m.runOn s ≠ (.error (.contradiction func ty), t)

theorem Consistent.bind {m : Pass α} {f : α → Pass β} (hm : Consistent m)
    (hf : ∀ a, Consistent (f a)) : Consistent (m >>= f) := by
  intro s t func ty hrun
  rw [runOn_bind] at hrun
  split at hrun
  · exact hf _ hrun
  · rename_i hfault
    cases hrun
    exact hm hfault

theorem Consistent.under {g : Guard} {m : Pass α} (hm : Consistent m) : Consistent (m.under g) := by
  intro s t func ty hrun
  rw [runOn_under] at hrun
  rcases hin : m.runOn ⟨g.enter s.env, s.nodes⟩ with ⟨result, u⟩
  rw [hin] at hrun
  cases hrun
  exact hm hin

/-- What the pass does from a machine, the other one does from the relabeled machine whose counter is
ahead by `k`, if the relabeling takes each identity that is made to the one that is made there. The
pass is one of the evaluator, so it does not know types. -/
structure Carries (r : Relabeling) (k : Nat) (φ : α → α') (m : Pass α) (m' : Pass α') : Prop where
  ok : ∀ ⦃s t : Machine⦄ ⦃a : α⦄, m.runOn s = (.ok a, t) → s.nodes.next ≤ t.nodes.next ∧
    ((∀ i, s.nodes.next ≤ i → i < t.nodes.next → r.id i = i + k) →
      m'.runOn (s.relabel r k) = (.ok (φ a), t.relabel r k))
  consistent : Consistent m

theorem carries_pure {φ : α → α'} {a : α} {a' : α'} (h : φ a = a') :
    Carries r k φ (pure a) (pure a') := by
  constructor
  · intro s t b hrun
    obtain ⟨rfl, rfl⟩ := runOn_pure_ok hrun
    exact ⟨Nat.le_refl _, fun _ => by rw [h, runOn_pure]⟩
  · intro s t func ty hrun
    cases hrun

theorem carries_throw {φ : α → α'} {f : Fault} (hf : ∀ func ty, f ≠ .contradiction func ty)
    (m' : Pass α') : Carries r k φ (throw f : Pass α) m' := by
  constructor
  · intro s t a hrun
    cases hrun
  · intro s t func ty hrun
    exact hf func ty (Except.error.inj (congrArg Prod.fst hrun))

theorem carries_fail {φ : α → α'} (e : TypeError) (m' : Pass α') :
    Carries r k φ (fail e : Pass α) m' := carries_throw (fun _ _ h => by cases h) m'

theorem carries_env : Carries r k (Env.relabel r) Pass.env Pass.env := by
  constructor
  · intro s t env hrun
    rw [runOn_env] at hrun
    cases hrun
    exact ⟨Nat.le_refl _, fun _ => rfl⟩
  · intro s t func ty hrun
    cases hrun

theorem carries_tagAt (span : Span) :
    Carries r k (Tag.relabel r) (tagAt span) (tagAt (r.span span)) := by
  constructor
  · intro s t tag hrun
    rw [runOn_tagAt] at hrun
    cases hrun
    -- the identity that is made here is taken to the one that is made with the counter ahead
    refine ⟨Nat.le_succ _, fun hshift => ?_⟩
    have hnext : r.id s.nodes.next = s.nodes.next + k :=
      hshift s.nodes.next (Nat.le_refl _) (Nat.lt_succ_self _)
    rw [runOn_tagAt, Tag.relabel, hnext]
    simp only [Machine.relabel, Counter.alloc, Prod.mk.injEq, Machine.mk.injEq, Counter.mk.injEq,
      true_and]
    omega
  · intro s t func ty hrun
    cases hrun

theorem carries_push (b : Binding) : Carries r k (fun _ => ⟨⟩) (push b) (push (b.relabel r)) := by
  constructor
  · intro s t _ hrun
    rw [runOn_push] at hrun
    cases hrun
    refine ⟨Nat.le_refl _, fun _ => ?_⟩
    rw [runOn_push, Machine.relabel, Machine.relabel, Env.relabel_push]
  · intro s t func ty hrun
    cases hrun

theorem Carries.bind {φ : α → α'} {ψ : β → β'} {m : Pass α} {m' : Pass α'} {f : α → Pass β}
    {f' : α' → Pass β'} (hm : Carries r k φ m m') (hf : ∀ a, Carries r k ψ (f a) (f' (φ a))) :
    Carries r k ψ (m >>= f) (m' >>= f') := by
  refine ⟨?_, hm.consistent.bind fun a => (hf a).consistent⟩
  intro s t b hrun
  obtain ⟨a, u, hrun₁, hrun₂⟩ := runOn_bind_ok hrun
  obtain ⟨hle₁, hcarry₁⟩ := hm.ok hrun₁
  obtain ⟨hle₂, hcarry₂⟩ := (hf a).ok hrun₂
  refine ⟨Nat.le_trans hle₁ hle₂, fun hshift => ?_⟩
  -- identities of the first part are made before, and those of the second part after, the middle
  have h₁ := hcarry₁ fun i hi hlt => hshift i hi (Nat.lt_of_lt_of_le hlt hle₂)
  have h₂ := hcarry₂ fun i hi hlt => hshift i (Nat.le_trans hle₁ hi) hlt
  rw [runOn_bind, h₁]
  exact h₂

theorem Carries.map {φ : α → α'} {ψ : β → β'} {m : Pass α} {m' : Pass α'} {f : α → β}
    {f' : α' → β'} (hm : Carries r k φ m m') (hf : ∀ a, ψ (f a) = f' (φ a)) :
    Carries r k ψ (f <$> m) (f' <$> m') := by
  rw [map_eq_pure_bind, map_eq_pure_bind]
  exact hm.bind fun a => carries_pure (hf a)

theorem Carries.under {φ : α → α'} {g g' : Guard} {m : Pass α} {m' : Pass α'}
    (hm : Carries r k φ m m') (hg : g.Follows r g') : Carries r k φ (m.under g) (m'.under g') := by
  refine ⟨?_, hm.consistent.under⟩
  intro s t a hrun
  rw [runOn_under] at hrun
  rcases hin : m.runOn ⟨g.enter s.env, s.nodes⟩ with ⟨result, u⟩
  rw [hin] at hrun
  cases hrun
  obtain ⟨hle, hcarry⟩ := hm.ok hin
  refine ⟨hle, fun hshift => ?_⟩
  have hrun' := hcarry hshift
  rw [Machine.relabel, hg.enter] at hrun'
  rw [runOn_under, Machine.relabel, hrun']
  simp only [Machine.relabel, hg.leave]

theorem Carries.mapM {φ : β → β'} {ψ : α → α'} {f : α → Pass β} {f' : α' → Pass β'} :
    ∀ {as : List α}, (∀ a ∈ as, Carries r k φ (f a) (f' (ψ a))) →
    Carries r k (List.map φ) (as.mapM f) ((as.map ψ).mapM f')
  | [], _ => by
    rw [List.map_nil, List.mapM_nil, List.mapM_nil]
    exact carries_pure rfl
  | a :: as, h => by
    obtain ⟨ha, has⟩ := List.forall_mem_cons.1 h
    rw [List.map_cons, List.mapM_cons, List.mapM_cons]
    exact ha.bind fun b => (Carries.mapM has).bind fun bs => carries_pure rfl

end Pass

open Pass

/-! ## The evaluator -/

namespace Eval

variable {r : Relabeling} {k : Nat}

/-- The pass does the same to a node under other tags. -/
abbrev Carried (r : Relabeling) (k : Nat) (m m' : Pass Node) : Prop :=
  Carries r k (Node.relabel r) m m'

theorem carries_builtin (hspan : r.span .builtin = .builtin) (b : Builtin) :
    Carried r k (Pass.builtin b) (Pass.builtin b) := by
  have htag : Carries r k (Tag.relabel r) (tagAt .builtin) (tagAt .builtin) := by
    have h := carries_tagAt (r := r) (k := k) .builtin
    rwa [hspan] at h
  exact htag.bind fun _ => carries_pure rfl

theorem carries_valueOf (hspan : r.span .builtin = .builtin) (found : Found) :
    Carried r k (valueOf found) (valueOf (found.relabel r)) := by
  cases found with
  | bound b => exact carries_pure rfl
  | defined d value => exact carries_pure rfl
  | builtin b => exact carries_builtin hspan b

theorem carries_bindLocal (hr : Function.Injective r.id) (item : Node) :
    Carried r k (bindLocal item) (bindLocal (item.relabel r)) := by
  cases item with
  | assign tag target value transparent link =>
    cases target with
    | ident nameTag x =>
      refine carries_env.bind fun env => ?_
      simp only [Env.freshName_relabel]
      refine (carries_push _).bind fun _ => ?_
      cases env.freshName x with
      | none => exact carries_pure rfl
      | some other =>
        refine (carries_tagAt nameTag.span).bind fun t => (carries_tagAt tag.span).bind fun t' => ?_
        refine carries_pure ?_
        show Node.assign _ _ _ transparent (env.links.current tag.id link) =
          Node.assign _ _ _ transparent ((env.links.relabel r).current (r.id tag.id) link)
        rw [Links.current_relabel hr]
        rfl
    | _ => exact carries_pure rfl
  | _ => exact carries_pure rfl

theorem any_isAlias_relabel (items : List Node) :
    (items.map (Node.relabel r)).any (·.isAlias) = items.any (·.isAlias) := by
  rw [List.any_map]
  exact congrArg _ (funext fun n => Node.isAlias_relabel r n)

theorem carries_seqValue (items : List Node) (site : Span) :
    Carried r k (seqValue items site) (seqValue (items.map (Node.relabel r)) (r.span site)) := by
  refine carries_env.bind fun env => ?_
  rw [any_isAlias_relabel]
  show Carried r k (if env.resolve || !items.any (·.isAlias) then _ else _)
    (if env.resolve || !items.any (·.isAlias) then _ else _)
  split
  · rw [List.getLast?_map]
    cases items.getLast? with
    | none => exact carries_fail _ _
    | some last => exact carries_pure rfl
  · refine (carries_tagAt site).bind fun t => carries_pure ?_
    rw [Node.relabel, Node.relabelList_eq]

section

variable {ev : Node → Pass Node} (h : ∀ n, Carried r k (ev n) (ev (n.relabel r)))

include h

theorem carries_evalSeq (hr : Function.Injective r.id) (items : List Node) :
    Carries r k (List.map (Node.relabel r)) (evalSeq ev items)
      (evalSeq ev (items.map (Node.relabel r))) :=
  Carries.under (Carries.mapM fun item _ => (h item).bind (carries_bindLocal hr))
    (Guard.follows_scope r)

theorem carries_evalType (ty : Node) : Carried r k (evalType ev ty) (evalType ev (ty.relabel r)) :=
  (h ty).under (Guard.follows_resolve r true)

theorem carries_evalDecl (d : Decl Node) :
    Carries r k (Node.relabelDecl r) (evalDecl ev d) (evalDecl ev (Node.relabelDecl r d)) := by
  rw [Node.relabelDecl_eq]
  refine (carries_evalType h d.ty).bind fun ty => carries_pure ?_
  rw [Node.relabelDecl_eq]

omit h in
theorem carries_evalIdent (hspan : r.span .builtin = .builtin) (tag : Tag) (x : Name) :
    Carried r k (evalIdent tag x) (evalIdent (tag.relabel r) x) := by
  refine carries_env.bind fun env => ?_
  rw [Env.lookup_relabel]
  cases env.lookup x with
  | none => exact carries_fail _ _
  | some found =>
    simp only [Option.map_some, Found.isPlaceholder_relabel, Found.isTransparent_relabel,
      Found.rename?_relabel]
    show Carried r k (if !found.isPlaceholder && (env.resolve || found.isTransparent) then _ else _)
      (if !found.isPlaceholder && (env.resolve || found.isTransparent) then _ else _)
    split
    · exact carries_valueOf hspan found
    · cases found.rename? with
      | some other => exact (carries_tagAt tag.span).bind fun t => carries_pure rfl
      | none => exact carries_pure rfl

theorem carries_evalFunc (hr : Function.Injective r.id) (tag : Tag) (param : Decl Node)
    (body : List Node) :
    Carried r k (evalFunc ev tag param body)
      (evalFunc ev (tag.relabel r) (Node.relabelDecl r param) (body.map (Node.relabel r))) := by
  rw [Node.relabelDecl_eq]
  refine (carries_evalType h param.ty).bind fun ty => (carries_tagAt param.span).bind fun t => ?_
  refine carries_env.bind fun env => ?_
  rw [Env.freshName_relabel]
  have hfunction : (Node.func tag param body).relabel r =
      .func (tag.relabel r) ⟨r.span param.span, param.name, param.ty.relabel r⟩
        (body.map (Node.relabel r)) := by
    rw [Node.relabel, Node.relabelDecl_eq, Node.relabelList_eq]
  have hvalue : (if ty.isType then Node.selfType t ty else .unknown t).relabel r =
      if (ty.relabel r).isType then .selfType (t.relabel r) (ty.relabel r)
      else .unknown (t.relabel r) := by
    rw [Node.isType_relabel]
    split <;> rfl
  rw [← hfunction, ← hvalue]
  refine Carries.bind (((carries_evalSeq h hr body).under (Guard.follows_binding r _)).under
    (Guard.follows_call r _)) fun body' => (carries_tagAt tag.span).bind fun t' => carries_pure ?_
  rw [Node.relabel, Node.relabelDecl_eq, Node.relabelList_eq]

theorem carries_apply (hr : Function.Injective r.id) (callee : Node) (param : Decl Node)
    (body : List Node) (arg : Node) (site : Span) :
    Carried r k (apply ev callee param body arg site)
      (apply ev (callee.relabel r) (Node.relabelDecl r param) (body.map (Node.relabel r))
        (arg.relabel r) (r.span site)) := by
  rw [Node.relabelDecl_eq]
  exact ((((carries_evalSeq h hr body).bind fun items => carries_seqValue items site).under
    (Guard.follows_binding r _)).under (Guard.follows_transparent r true)).under
    (Guard.follows_call r callee)

omit h in
theorem carries_residualCallee (callee evaluated : Node) :
    Carried r k (residualCallee callee evaluated)
      (residualCallee (callee.relabel r) (evaluated.relabel r)) := by
  cases callee with
  | ident tag x =>
    refine carries_env.bind fun env => ?_
    rw [Node.isFunc_relabel, Env.lookup_relabel]
    cases evaluated.isFunc with
    | false => exact carries_pure rfl
    | true =>
      cases env.lookup x with
      | none => exact carries_pure rfl
      | some found => cases found <;> exact carries_pure rfl
  | _ => exact carries_pure rfl

theorem carries_unfoldCall (hr : Function.Injective r.id) (env : Env) (function value : Node)
    (site : Span) :
    Carries r k (Option.map (Node.relabel r)) (unfoldCall ev env function value site)
      (unfoldCall ev (env.relabel r) (function.relabel r) (value.relabel r) (r.span site)) := by
  cases function with
  | func tag param body =>
    have hfunction : (Node.func tag param body).relabel r =
        .func (tag.relabel r) (Node.relabelDecl r param) (body.map (Node.relabel r)) := by
      rw [Node.relabel, Node.relabelList_eq]
    -- the stack is searched by identity, so here the relabeling has to be injective
    have hstack := env.isOnStack_relabel hr (.func tag param body)
    rw [hfunction] at hstack ⊢
    simp only [unfoldCall, hstack, Node.isStatic_relabel]
    show Carries r k _ (if !env.isOnStack _ || (env.resolve && value.isStatic) then _ else _)
      (if !env.isOnStack _ || (env.resolve && value.isStatic) then _ else _)
    split
    · have happly := carries_apply h hr (.func tag param body) param body value site
      rw [hfunction] at happly
      exact happly.map fun _ => rfl
    · exact carries_pure rfl
  | _ => exact carries_pure rfl

omit h in
theorem carries_keptCallee (hspan : r.span .builtin = .builtin) (env : Env)
    (callee function : Node) :
    Carried r k (keptCallee env callee function)
      (keptCallee (env.relabel r) (callee.relabel r) (function.relabel r)) := by
  unfold keptCallee
  rw [show (env.relabel r).resolve = env.resolve from rfl]
  cases env.resolve with
  | true => exact carries_residualCallee callee function
  | false =>
    cases callee with
    | ident tag x => exact carries_evalIdent hspan tag x
    | _ => exact carries_residualCallee _ function

theorem carries_evalCall (hr : Function.Injective r.id) (hspan : r.span .builtin = .builtin)
    (tag : Tag) (callee arg : Node) :
    Carried r k (evalCall ev tag callee arg)
      (evalCall ev (tag.relabel r) (callee.relabel r) (arg.relabel r)) := by
  refine (carries_evalType h callee).bind fun function => (h arg).bind fun value => ?_
  refine carries_env.bind fun env =>
    (carries_unfoldCall h hr env function value tag.span).bind fun result => ?_
  have hkept : Carried r k
      (keptCallee env callee function >>= fun kept => do return .call (← tagAt tag.span) kept value)
      (keptCallee (env.relabel r) (callee.relabel r) (function.relabel r) >>= fun kept => do
        return .call (← tagAt (r.span tag.span)) kept (value.relabel r)) :=
    (carries_keptCallee hspan env callee function).bind fun kept =>
      (carries_tagAt tag.span).bind fun t => carries_pure rfl
  rw [show (env.relabel r).resolve = env.resolve from rfl]
  cases env.resolve with
  | false => exact hkept
  | true =>
    cases result with
    | none => exact hkept
    | some result => exact carries_pure rfl

/-! ### Operators and control -/

theorem carries_evalDot (tag : Tag) (lhs rhs : Node) :
    Carried r k (evalDot ev tag lhs rhs)
      (evalDot ev (tag.relabel r) (lhs.relabel r) (rhs.relabel r)) := by
  refine (h lhs).bind fun owner => ?_
  have hkept : Carried r k (do return .binOp (← tagAt tag.span) .dot owner rhs)
      (do return .binOp (← tagAt (r.span tag.span)) .dot (owner.relabel r) (rhs.relabel r)) :=
    (carries_tagAt tag.span).bind fun t => carries_pure rfl
  cases owner with
  | inst t template body =>
    cases rhs with
    | ident nameTag x =>
      simp only [Node.relabel, Node.relabelList_eq, Node.fieldValue?_relabel]
      cases Node.fieldValue? body x with
      | some value => exact carries_pure rfl
      | none => exact carries_fail _ _
    | _ => exact hkept
  | _ => exact hkept

theorem carries_evalBinOp (tag : Tag) (op : Operator) (lhs rhs : Node) :
    Carried r k (evalBinOp ev tag op lhs rhs)
      (evalBinOp ev (tag.relabel r) op (lhs.relabel r) (rhs.relabel r)) := by
  unfold evalBinOp
  split
  · exact carries_evalDot h tag lhs rhs
  · refine (h lhs).bind fun a => (h rhs).bind fun b => ?_
    simp only [Node.number?_relabel]
    split <;> exact (carries_tagAt tag.span).bind fun t => carries_pure rfl

theorem carries_evalIf (hr : Function.Injective r.id) (tag : Tag) (condition : Node)
    (thenBody elseBody : List Node) :
    Carried r k (evalIf ev tag condition thenBody elseBody)
      (evalIf ev (tag.relabel r) (condition.relabel r) (thenBody.map (Node.relabel r))
        (elseBody.map (Node.relabel r))) := by
  refine (h condition).bind fun condition' => ?_
  rw [Node.bool?_relabel]
  cases condition'.bool? with
  | some taken =>
    have hbranch : (if taken then thenBody.map (Node.relabel r) else elseBody.map (Node.relabel r)) =
        (if taken then thenBody else elseBody).map (Node.relabel r) := by
      cases taken <;> rfl
    simp only [hbranch]
    exact (carries_evalSeq h hr _).bind fun items => carries_seqValue items tag.span
  | none =>
    refine (carries_evalSeq h hr thenBody).bind fun thenItems =>
      (carries_evalSeq h hr elseBody).bind fun elseItems => ?_
    refine (carries_tagAt tag.span).bind fun t => carries_pure ?_
    rw [Node.relabel, Node.relabelList_eq, Node.relabelList_eq]

theorem carries_isMatch (hr : Function.Injective r.id) (pattern scrutinee : Node) :
    Carries r k (fun b => b) (isMatch ev pattern scrutinee)
      (isMatch ev (pattern.relabel r) (scrutinee.relabel r)) := by
  unfold isMatch
  rw [Node.isWildcard_relabel]
  split
  · exact carries_pure rfl
  · refine carries_env.bind fun env => (h pattern).bind fun value => carries_pure ?_
    exact (Node.equal_relabel (Links.current_relabel hr env.links) value scrutinee).symm

theorem carries_evalCases (hr : Function.Injective r.id) (scrutinee : Node) (site : Span) :
    ∀ cases : List (Case Node), Carried r k (evalCases ev scrutinee site cases)
      (evalCases ev (scrutinee.relabel r) (r.span site) (cases.map (Node.relabelCase r)))
  | [] => carries_fail _ _
  | c :: cs => by
    rw [List.map_cons, Node.relabelCase_eq, evalCases, evalCases]
    refine (carries_isMatch h hr c.pattern scrutinee).bind fun hit => ?_
    cases hit with
    | true => exact (carries_evalSeq h hr c.body).bind fun items => carries_seqValue items c.span
    | false => exact carries_evalCases hr scrutinee site cs

theorem carries_evalCase (hr : Function.Injective r.id) (c : Case Node) :
    Carries r k (Node.relabelCase r) (evalCase ev c) (evalCase ev (Node.relabelCase r c)) := by
  rw [Node.relabelCase_eq]
  unfold evalCase
  simp only [Node.isWildcard_relabel]
  have hbody (pattern : Node) : Carries r k (Node.relabelCase r)
      (do return { c with pattern, body := ← evalSeq ev c.body })
      (do return ⟨r.span c.span, pattern.relabel r, ← evalSeq ev (c.body.map (Node.relabel r))⟩) := by
    refine (carries_evalSeq h hr c.body).bind fun body => carries_pure ?_
    rw [Node.relabelCase_eq]
  split
  · exact Carries.bind (carries_pure rfl) hbody
  · exact (h c.pattern).bind hbody

theorem carries_evalMatch (hr : Function.Injective r.id) (tag : Tag) (scrutinee : Node)
    (cases : List (Case Node)) :
    Carried r k (evalMatch ev tag scrutinee cases)
      (evalMatch ev (tag.relabel r) (scrutinee.relabel r) (cases.map (Node.relabelCase r))) := by
  refine (h scrutinee).bind fun value => ?_
  rw [Node.isStatic_relabel]
  split
  · exact carries_evalCases h hr value tag.span cases
  · refine (Carries.mapM fun c _ => carries_evalCase h hr c).bind fun cases' => ?_
    refine (carries_tagAt tag.span).bind fun t => carries_pure ?_
    rw [Node.relabel, Node.relabelCases_eq]

theorem carries_evalField (item : Node) :
    Carried r k (evalField ev item) (evalField ev (item.relabel r)) := by
  cases item with
  | ident tag x => exact carries_pure rfl
  | _ => exact h _

/-! ### Nodes -/

theorem carries_step (hr : Function.Injective r.id) (hspan : r.span .builtin = .builtin) (n : Node) :
    Carried r k (step ev n) (step ev (n.relabel r)) := by
  cases n with
  | lit | builtin | enum | unknown => exact carries_pure rfl
  | list tag items =>
    rw [Node.relabel, Node.relabelList_eq]
    refine (Carries.mapM fun n _ => h n).bind fun items' => (carries_tagAt tag.span).bind fun t => ?_
    exact carries_pure (by rw [Node.relabel, Node.relabelList_eq])
  | record tag id fields range =>
    rw [Node.relabel, Node.relabelDecls_eq]
    refine (Carries.mapM fun d _ => carries_evalDecl h d).bind fun fields' =>
      (carries_tagAt tag.span).bind fun t => ?_
    exact carries_pure (by rw [Node.relabel, Node.relabelDecls_eq])
  | fnType tag id dom cod =>
    exact (carries_evalType h dom).bind fun _ => (carries_evalType h cod).bind fun _ =>
      (carries_tagAt tag.span).bind fun t => carries_pure rfl
  | selfType tag ty | arg tag name ty | field tag name ty =>
    exact (carries_evalType h ty).bind fun _ => (carries_tagAt tag.span).bind fun t =>
      carries_pure rfl
  | assign tag target value transparent link =>
    refine (h value).bind fun value' => carries_env.bind fun env =>
      (carries_tagAt tag.span).bind fun t => carries_pure ?_
    show Node.assign _ _ _ transparent (env.links.current tag.id link) =
      Node.assign _ _ _ transparent ((env.links.relabel r).current (r.id tag.id) link)
    rw [Links.current_relabel hr]
  | ident tag x => exact carries_evalIdent hspan tag x
  | func tag param body =>
    rw [Node.relabel, Node.relabelList_eq]
    exact carries_evalFunc h hr tag param body
  | call tag callee arg => exact carries_evalCall h hr hspan tag callee arg
  | binOp tag op lhs rhs => exact carries_evalBinOp h tag op lhs rhs
  | matchOn tag scrutinee cases =>
    rw [Node.relabel, Node.relabelCases_eq]
    exact carries_evalMatch h hr tag scrutinee cases
  | whileDo tag condition body =>
    rw [Node.relabel, Node.relabelList_eq]
    refine (h condition).bind fun condition' => (carries_evalSeq h hr body).bind fun body' =>
      (carries_tagAt tag.span).bind fun t => carries_pure ?_
    rw [Node.relabel, Node.relabelList_eq]
  | ifElse tag condition thenBody elseBody =>
    rw [Node.relabel, Node.relabelList_eq, Node.relabelList_eq]
    exact carries_evalIf h hr tag condition thenBody elseBody
  | block tag items =>
    rw [Node.relabel, Node.relabelList_eq]
    exact (carries_evalSeq h hr items).bind fun items' => carries_seqValue items' tag.span
  | inst tag template body =>
    rw [Node.relabel, Node.relabelList_eq]
    refine (carries_evalType h template).bind fun template' =>
      (Carries.mapM fun n _ => carries_evalField h n).bind fun body' =>
        (carries_tagAt tag.span).bind fun t => carries_pure ?_
    rw [Node.relabel, Node.relabelList_eq]

end

end Eval

/-- Evaluating a relabeled node in a relabeled environment gives the relabeled result. -/
theorem carries_eval {r : Relabeling} (hr : Function.Injective r.id)
    (hspan : r.span .builtin = .builtin) (k : Nat) :
    ∀ (depth : Nat) (n : Node), Eval.Carried r k (eval depth n) (eval depth (n.relabel r))
  | 0, _ => carries_throw (fun _ _ h => by cases h) _
  | depth + 1, n => Eval.carries_step (carries_eval hr hspan k depth) hr hspan n

end Residual
