/-
Symbolic evaluation of first-order programs ends. Where names are kept, a call is unfolded only to see
whether it has a fault, and only if the function is not being called already. In the first-order language
functions are defined at the top and called by name. There a local is never bound to a function: a
parameter is bound to an evaluated argument, and evaluation keeps the name of a definition. So each call
that is unfolded enters a definition that was not being called, and there are finitely many of those,
however the definitions call each other. Between two calls evaluation goes to the parts of a node.
-/
import Residual.Proofs.Halting
import Residual.Proofs.Parts

namespace Residual

open Pass

/-! ## The language -/

/-- Kinds of nodes of the first-order language: no function literals, no types, no field accesses, and
calls by name only. -/
def Node.isFirstOrder : Node → Bool
  | .lit .. | .ident .. | .list .. | .assign .. | .matchOn .. | .whileDo .. | .ifElse ..
  | .block .. => true
  | .binOp _ op _ _ => op != .dot
  | .call _ callee _ => callee.ident?.isSome
  | _ => false

/-- Nodes of the first-order language. -/
def Node.FirstOrder (n : Node) : Prop := n.All (·.isFirstOrder = true)

/-- Functions are defined with bodies of the first-order language. Nothing is asked of the types of their
parameters, nor of definitions that are no functions: symbolic evaluation never looks into these. -/
def Definitions.AreFirstOrder (store : Definitions) : Prop :=
  ∀ {x d t param body}, store.lookup x = some (d, .func t param body) → ∀ n ∈ body, n.FirstOrder

/-- What may be evaluated: a node of the first-order language, or a function with such a body whose
parameter has a named type. -/
inductive Node.IsProgram : Node → Prop where
  | code {n : Node} (h : n.FirstOrder) : n.IsProgram
  | func {param : Decl Node} {body : List Node} {ttag : Tag} {T : Name} (tag : Tag)
    (hty : param.ty = .ident ttag T) (h : ∀ n ∈ body, n.FirstOrder) : IsProgram (.func tag param body)

/-- Not a function, nor an alias of one. -/
def Node.isData : Node → Bool
  | .func .. => false
  | .assign _ _ value _ _ => value.isData
  | _ => true

namespace Symbolic

open Residual.Layers (Ordinary)

variable {store : Definitions} {K : Nat} {env : Env} {n : Node}

/-! ## Environments -/

/-- No local is bound to a function. -/
def HoldsData (env : Env) : Prop := ∀ b ∈ env.locals.bindings, b.value.isData = true

theorem HoldsData.push (h : HoldsData env) {b : Binding} (hb : b.value.isData = true) :
    HoldsData (env.push b) := List.forall_mem_cons.2 ⟨hb, h⟩

/-- An environment of symbolic evaluation, with at most `K` definitions that are not being called. -/
structure IsSymbolicEnv (store : Definitions) (K : Nat) (env : Env) : Prop where
  store_eq : env.store = store
  keeps : env.resolve = false
  pending_le : Env.pending store env ≤ K
  data : HoldsData env

namespace IsSymbolicEnv

theorem push (h : IsSymbolicEnv store K env) {b : Binding} (hb : b.value.isData = true) :
    IsSymbolicEnv store K (env.push b) := ⟨h.store_eq, h.keeps, h.pending_le, h.data.push hb⟩

theorem enterCall (h : IsSymbolicEnv store K env) (f : Node) : IsSymbolicEnv store K (env.enterCall f) :=
  ⟨h.store_eq, h.keeps, Nat.le_trans (Env.pending_enterCall_le store env f) h.pending_le, h.data⟩

/-- A definition that was not being called is one less. -/
theorem enterDefined (h : IsSymbolicEnv store K env) {x : Name} {d : DefId} {f : Node}
    (hx : store.lookup x = some (d, f)) (hf : env.isOnStack f = false) :
    ∃ j < K, IsSymbolicEnv store j { env.enterCall f with transparent := true } := by
  have hlt := Env.pending_enterCall_lt hx hf
  exact ⟨Env.pending store (env.enterCall f), Nat.lt_of_lt_of_le hlt h.pending_le, h.store_eq, h.keeps,
    Nat.le_refl _, h.data⟩

end IsSymbolicEnv

/-- Symbolic evaluation ends, with data unless there is a fault. -/
def Evals (store : Definitions) (K : Nat) (n : Node) : Prop :=
  ∀ ⦃env : Env⦄, IsSymbolicEnv store K env → Returns env (fun d => eval d n) Ordinary (·.isData = true)

/-! ## Sequences -/

/-- What an alias is bound to is data, since the alias is. -/
theorem upkeep : Eval.Upkeep (IsSymbolicEnv store K) (·.isData = true) where
  bind henv h := henv.push h
  rename h _ _ _ _ := h
  block _ _ := rfl

theorem returns_evalSeq {items : List Node} (h : ∀ n ∈ items, Evals store K n)
    (henv : IsSymbolicEnv store K env) :
    Returns env (fun d => Eval.evalSeq (eval d) items) Ordinary fun vs => ∀ v ∈ vs, v.isData = true :=
  upkeep.returns_evalSeq h henv

theorem returns_value {items : List Node} (h : ∀ n ∈ items, Evals store K n)
    (henv : IsSymbolicEnv store K env) (site : Span) :
    Returns env (fun d => Eval.evalSeq (eval d) items >>= (Eval.seqValue · site)) Ordinary
      (·.isData = true) :=
  upkeep.returns_value h henv rfl

/-! ## Names and calls -/

/-- A name stands for data or for its definition, and for the latter only where it is resolved. -/
theorem returns_evalIdent (henv : HoldsData env) (tag : Tag) (x : Name) :
    Returns env (fun _ => Eval.evalIdent tag x) Ordinary fun v =>
      v.isData = true ∨ env.resolve = true ∧ ∃ d, env.store.lookup x = some (d, v) :=
  Eval.returns_evalName tag (fun _ => rfl)
    (fun b hb => ⟨fun _ => .inl (henv b (Env.mem_of_lookup_bound hb).1), fun _ _ => .inl rfl⟩)
    (fun d _ hv => ⟨fun hr => .inr ⟨hr, d, Env.lookup_of_defined hv⟩, fun _ => .inl rfl⟩)
    fun _ _ _ => ⟨.inl rfl, .inl rfl⟩

theorem returns_name (henv : IsSymbolicEnv store K env) (tag : Tag) (x : Name) :
    Returns env (fun _ => Eval.evalIdent tag x) Ordinary (·.isData = true) := by
  refine (returns_evalIdent henv.data tag x).mono ?_
  rintro v (h | ⟨hresolve, -⟩)
  · exact h
  · rw [henv.keeps] at hresolve
    cases hresolve

/-- If a callee is a function, it is the definition of its name. -/
theorem returns_callee (henv : IsSymbolicEnv store K env) (tag : Tag) (x : Name) :
    Returns env (fun d => Eval.evalType (eval d) (.ident tag x)) Ordinary
      fun f => f.isFunc = true → ∃ d, store.lookup x = some (d, f) := by
  have hdata : HoldsData { env with resolve := true } := henv.data
  refine (Eval.returns_evalType (Returns.succ (returns_evalIdent hdata tag x))).mono ?_
  rintro f (h | ⟨-, d, hx⟩) hfunc
  · cases f with
    | func => cases h
    | _ => cases hfunc
  · exact ⟨d, henv.store_eq ▸ hx⟩

/-- A call is unfolded with one definition less that is not being called. Names are kept, so the call
stays, whatever became of its unfolding. -/
theorem evals_call (hstored : ∀ {x d t param body},
      store.lookup x = some (d, .func t param body) → ∀ j < K, ∀ n ∈ body, Evals store j n)
    {x : Name} {arg : Node} (tag ftag : Tag) (harg : Evals store K arg) :
    Evals store K (.call tag (.ident ftag x) arg) := by
  intro env henv
  refine Returns.succ (Eval.returns_evalCall tag (returns_callee henv ftag x) (harg henv)
    (fun t param body v hf hv hgoes => ?_) fun f v _ _ _ => Eval.returns_keptCallee (fun t y _ _ =>
      (returns_name henv t y).mono fun _ _ _ => rfl) fun hother => ?_)
  · obtain ⟨d, hx⟩ := hf rfl
    have hstack : env.isOnStack (.func t param body) = false :=
      Bool.eq_false_iff.2 fun hon => hgoes (.inr ⟨hon, .inl henv.keeps⟩)
    obtain ⟨j, hj, hinner⟩ := henv.enterDefined hx hstack
    exact Eval.returns_apply ((returns_value (hstored hx j hj)
      (hinner.push (b := ⟨param.name, v, true, none⟩) hv) tag.span).mono fun _ hw _ => hw)
  · rcases hother with hident | hr
    · cases hident
    · rw [henv.keeps] at hr
      cases hr

/-! ## Nodes -/

theorem evals_list {items : List Node} (tag : Tag) (h : ∀ n ∈ items, Evals store K n) :
    Evals store K (.list tag items) := by
  intro env henv
  refine Returns.succ ((Returns.mapM_all fun n hn => h n hn henv).bind fun _ _ => ?_)
  exact (returns_tagAt _).bind fun _ _ => returns_pure rfl

theorem evals_assign {target value : Node} (tag : Tag) (transparent : Bool) (link : Option DefId)
    (h : Evals store K value) : Evals store K (.assign tag target value transparent link) := by
  intro env henv
  refine Returns.succ ((h henv).bind fun v hv => returns_env.bind fun _ _ => ?_)
  exact (returns_tagAt _).bind fun _ _ => returns_pure hv

theorem evals_binOp {op : Operator} {lhs rhs : Node} (tag : Tag) (hop : op ≠ .dot)
    (hl : Evals store K lhs) (hr : Evals store K rhs) : Evals store K (.binOp tag op lhs rhs) := by
  intro env henv
  exact Returns.succ (Eval.returns_evalBinOp tag hop (hl henv) (hr henv)
    (fun _ _ _ _ _ _ _ _ _ _ _ => rfl) fun _ _ _ _ _ _ => rfl)

theorem evals_ifElse {c : Node} {thenBody elseBody : List Node} (tag : Tag) (hc : Evals store K c)
    (ht : ∀ n ∈ thenBody, Evals store K n) (he : ∀ n ∈ elseBody, Evals store K n) :
    Evals store K (.ifElse tag c thenBody elseBody) := by
  intro env henv
  exact Returns.succ (Eval.returns_evalIf tag (hc henv) (fun _ _ _ => returns_value ht henv _)
    (fun _ _ _ => returns_value he henv _) (returns_evalSeq ht henv) (returns_evalSeq he henv)
    fun _ _ _ _ _ _ _ _ => rfl)

theorem evals_whileDo {c : Node} {body : List Node} (tag : Tag) (hc : Evals store K c)
    (hb : ∀ n ∈ body, Evals store K n) : Evals store K (.whileDo tag c body) := by
  intro env henv
  refine Returns.succ ((hc henv).bind fun _ _ => (returns_evalSeq hb henv).bind fun _ _ => ?_)
  exact (returns_tagAt _).bind fun _ _ => returns_pure rfl

theorem evals_matchOn {scrutinee : Node} {cases : List (Case Node)} (tag : Tag)
    (hs : Evals store K scrutinee) (h : ∀ c ∈ cases, ∀ n ∈ c.pattern :: c.body, Evals store K n) :
    Evals store K (.matchOn tag scrutinee cases) := by
  intro env henv
  have hbody (c : Case Node) (hc : c ∈ cases) (n : Node) (hn : n ∈ c.body) : Evals store K n :=
    h c hc n (List.mem_cons_of_mem _ hn)
  exact Returns.succ (Eval.returns_evalMatch tag (hs henv)
    (fun c hc _ => h c hc c.pattern List.mem_cons_self henv)
    (fun c hc => returns_value (hbody c hc) henv c.span) (fun c hc => returns_evalSeq (hbody c hc) henv)
    (fun _ _ _ => rfl) fun _ _ _ _ _ _ => rfl)

/-- A node of the language is evaluated, if its parts and the functions it may call are. -/
theorem evals_of_children (hstored : ∀ {x d t param body},
      store.lookup x = some (d, .func t param body) → ∀ j < K, ∀ n ∈ body, Evals store j n)
    (hn : n.isFirstOrder = true) (h : ∀ m ∈ n.children, Evals store K m) : Evals store K n := by
  cases n with
  | lit tag l => exact fun _ _ => Returns.succ (returns_pure rfl)
  | ident tag x => exact fun _ henv => Returns.succ (returns_name henv tag x)
  | list tag items => exact evals_list tag h
  | assign tag target value transparent link =>
    exact evals_assign tag transparent link (h value List.mem_cons_self)
  | call tag callee arg =>
    cases callee with
    | ident ftag x => exact evals_call hstored tag ftag (h arg (by simp [Node.children]))
    | _ => cases hn
  | binOp tag op lhs rhs =>
    have hop : op ≠ .dot := bne_iff_ne.1 hn
    refine evals_binOp tag hop ?_ ?_
    · exact h lhs Node.mem_children_binOp
    · exact h rhs (Node.mem_children_rhs hop)
  | matchOn tag scrutinee cases =>
    exact evals_matchOn tag (h scrutinee List.mem_cons_self)
      fun c hc m hm => h m (Node.mem_children_matchOn hc hm)
  | whileDo tag c body =>
    exact evals_whileDo tag (h c List.mem_cons_self) fun m hm => h m (List.mem_cons_of_mem _ hm)
  | ifElse tag c thenBody elseBody =>
    exact evals_ifElse tag (h c List.mem_cons_self) (fun m hm => h m (Node.mem_children_then hm))
      fun m hm => h m (Node.mem_children_else hm)
  | block tag items => exact fun _ henv => Returns.succ (returns_value h henv tag.span)
  | _ => cases hn

/-- Symbolic evaluation ends for every node of the language, by induction on the definitions that are
not being called, and for these on the size of the node. -/
theorem evals_of_firstOrder (hstore : store.AreFirstOrder) :
    ∀ (K : Nat) {n : Node}, n.FirstOrder → Evals store K n := by
  intro K
  induction K using Nat.strong_induction_on with
  | _ K ih =>
    intro n hn
    induction hsize : sizeOf n using Nat.strong_induction_on generalizing n with
    | _ k ihsize =>
      subst hsize
      refine evals_of_children (fun hx j hj m hm => ih j hj (hstore hx m hm)) hn.self ?_
      exact fun m hm => ihsize _ (Node.sizeOf_children hm) (hn.child hm) rfl

/-- A function is evaluated under its binder, which is bound to a placeholder. -/
theorem evals_func {param : Decl Node} {body : List Node} {ttag : Tag} {T : Name}
    (hty : param.ty = .ident ttag T) (tag : Tag) (hbody : ∀ n ∈ body, Evals store K n)
    (henv : IsSymbolicEnv store K env) :
    Returns env (fun d => eval d (.func tag param body)) Ordinary fun _ => True := by
  have htype : Returns env (fun d => Eval.evalType (eval d) param.ty) Ordinary fun _ => True := by
    rw [hty]
    exact (returns_callee henv ttag T).mono fun _ _ => trivial
  refine Returns.succ (Eval.returns_evalFunc htype (fun ty t _ => returns_evalSeq hbody
    ((henv.enterCall (.func tag param body)).push ?_)) fun _ _ _ _ _ => trivial)
  show Node.isData (if ty.isType then .selfType t ty else .unknown t) = true
  split <;> rfl

theorem returns_program (hstore : store.AreFirstOrder) (hn : n.IsProgram)
    (henv : IsSymbolicEnv store K env) :
    Returns env (fun d => eval d n) Ordinary fun _ => True := by
  cases hn with
  | code h => exact (evals_of_firstOrder hstore K h henv).mono fun _ _ => trivial
  | func tag hty h =>
    exact evals_func hty tag (fun m hm => evals_of_firstOrder hstore K (h m hm)) henv

end Symbolic

open Symbolic in
/-- Symbolic evaluation of a first-order program ends, whether the program is well-typed or not and
however its definitions call each other: from some depth on there is one outcome, and it is a node or
an ordinary fault. -/
theorem eval_terminates {store : Definitions} {n : Node} {s : Machine}
    (hstore : store.AreFirstOrder) (hn : n.IsProgram) (hs : s.env.IsFresh store)
    (hkeeps : s.env.resolve = false) :
    ∃ result t depth, (∀ f, result = .error f → f.isOrdinary = true) ∧
      ∀ d ≥ depth, (eval d n).runOn s = (result, t) := by
  have hdata : HoldsData s.env := by
    intro b hb
    rw [hs.locals] at hb
    cases hb
  obtain ⟨r, t, hends, depth, hrun⟩ :=
    returns_program hstore hn ⟨hs.store_eq, hkeeps, Nat.le_refl _, hdata⟩ s rfl
  refine ⟨r, t, depth, ?_, hrun⟩
  rintro f rfl
  exact hends

/-- `ping = @n(Number) if n < 1 then 0 else pong(n - 1)`,
`pong = @n(Number) { m = ping(n); if m then loop(pong) else pong }` and
`loop = @x(Nowhere) match loop(x) { 1 => ping(x), _ => while x do pong([x]) }` -/
def tangledDefinitions : Definitions := ⟨[
  ("ping", .func ⟨0, .builtin⟩ ⟨.builtin, "n", .ident ⟨1, .builtin⟩ "Number"⟩ [
    .ifElse ⟨2, .builtin⟩ (.binOp ⟨3, .builtin⟩ .lt (.ident ⟨4, .builtin⟩ "n")
        (.lit ⟨5, .builtin⟩ (.number 1)))
      [.lit ⟨6, .builtin⟩ (.number 0)]
      [.call ⟨7, .builtin⟩ (.ident ⟨8, .builtin⟩ "pong") (.binOp ⟨9, .builtin⟩ .sub
        (.ident ⟨10, .builtin⟩ "n") (.lit ⟨11, .builtin⟩ (.number 1)))]]),
  ("pong", .func ⟨12, .builtin⟩ ⟨.builtin, "n", .ident ⟨13, .builtin⟩ "Number"⟩ [
    .assign ⟨14, .builtin⟩ (.ident ⟨15, .builtin⟩ "m") (.call ⟨16, .builtin⟩
      (.ident ⟨17, .builtin⟩ "ping") (.ident ⟨18, .builtin⟩ "n")) false none,
    .ifElse ⟨19, .builtin⟩ (.ident ⟨20, .builtin⟩ "m")
      [.call ⟨21, .builtin⟩ (.ident ⟨22, .builtin⟩ "loop") (.ident ⟨23, .builtin⟩ "pong")]
      [.ident ⟨24, .builtin⟩ "pong"]]),
  ("loop", .func ⟨25, .builtin⟩ ⟨.builtin, "x", .ident ⟨26, .builtin⟩ "Nowhere"⟩ [
    .matchOn ⟨27, .builtin⟩ (.call ⟨28, .builtin⟩ (.ident ⟨29, .builtin⟩ "loop")
        (.ident ⟨30, .builtin⟩ "x")) [
      ⟨.builtin, .lit ⟨31, .builtin⟩ (.number 1), [.call ⟨32, .builtin⟩
        (.ident ⟨33, .builtin⟩ "ping") (.ident ⟨34, .builtin⟩ "x")]⟩,
      ⟨.builtin, .ident ⟨35, .builtin⟩ "_", [.whileDo ⟨36, .builtin⟩ (.ident ⟨37, .builtin⟩ "x")
        [.call ⟨38, .builtin⟩ (.ident ⟨39, .builtin⟩ "pong")
          (.list ⟨40, .builtin⟩ [.ident ⟨41, .builtin⟩ "x"])]]⟩]])]⟩

/-- `@k(Number) { r = ping(k); pong(r) }` -/
def tangledProgram : Node :=
  .func ⟨42, .builtin⟩ ⟨.builtin, "k", .ident ⟨43, .builtin⟩ "Number"⟩ [
    .assign ⟨44, .builtin⟩ (.ident ⟨45, .builtin⟩ "r") (.call ⟨46, .builtin⟩
      (.ident ⟨47, .builtin⟩ "ping") (.ident ⟨48, .builtin⟩ "k")) false none,
    .call ⟨49, .builtin⟩ (.ident ⟨50, .builtin⟩ "pong") (.ident ⟨51, .builtin⟩ "r")]

theorem areFirstOrder_tangledDefinitions : tangledDefinitions.AreFirstOrder := by
  intro x d t param body h n hn
  have hmem := Definitions.mem_entries_of_lookup h
  simp only [tangledDefinitions, List.mem_cons, List.not_mem_nil, or_false, Prod.mk.injEq,
    Node.func.injEq] at hmem
  refine Node.all_of_partsWithin 6 ?_ ?_ <;>
    rcases hmem with ⟨-, -, -, rfl⟩ | ⟨-, -, -, rfl⟩ | ⟨-, -, -, rfl⟩ <;> revert n <;> decide

theorem eval_terminates_tangled : ∃ result t depth,
    (∀ f, result = .error f → f.isOrdinary = true) ∧ ∀ d ≥ depth,
      (eval d tangledProgram).runOn (freshMachine tangledDefinitions false) = (result, t) := by
  refine eval_terminates areFirstOrder_tangledDefinitions (.func _ rfl fun n hn => ?_)
    (isFresh_freshMachine _ _) rfl
  refine Node.all_of_partsWithin 6 ?_ ?_ <;> revert n <;> decide

end Residual
