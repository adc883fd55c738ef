/-
Steps of evaluation on first-order code. If the parts of an expression evaluate to code of their
types, the expression evaluates to code of its type, whether names are resolved or kept: an operator
is folded or stays, a branch or a case is taken or stays. A sequence of one expression binds nothing,
so its value is the same in both modes.
-/
import Residual.Proofs.FirstOrder
import Residual.Proofs.FreshName
import Residual.Proofs.Rules

namespace Residual

theorem Operator.builtin_of_fold {op : Operator} {x y : Float} {l : Literal}
    (h : op.fold x y = some l) : l.builtin = if op.isArithmetic then .number else .bool := by
  cases op <;> cases h <;> rfl

theorem Operator.exists_fold {op : Operator} (hop : op ≠ .dot) (x y : Float) :
    ∃ l, op.fold x y = some l := by
  cases op <;> first | exact ⟨_, rfl⟩ | exact absurd rfl hop

/-! ## Environments over definitions -/

theorem Builtin.ofName?_name (b : Builtin) : Builtin.ofName? b.name = some b := by cases b <;> rfl

namespace Locals

theorem find?_push_self (ls : Locals) (b : Binding) : (ls.push b).find? b.name = some b := by
  rw [find?_eq, bindings_push, List.find?_cons_of_pos (by simp)]

theorem find?_push_of_ne {ls : Locals} {b : Binding} {x : Name} (h : x ≠ b.name) :
    (ls.push b).find? x = ls.find? x := by
  rw [find?_eq, find?_eq, bindings_push, List.find?_cons_of_neg (by simpa using Ne.symm h)]

theorem name_of_find? {ls : Locals} {x : Name} {b : Binding} (h : ls.find? x = some b) :
    b.name = x := by
  rw [find?_eq] at h
  simpa using List.find?_some h

end Locals

theorem Env.lookup_bound {env : Env} {x : Name} {b : Binding} (h : env.locals.find? x = some b) :
    env.lookup x = some (.bound b) := by
  rw [lookup, h]

theorem Env.mem_of_lookup_bound {env : Env} {x : Name} {b : Binding}
    (h : env.lookup x = some (.bound b)) : b ∈ env.locals.bindings ∧ b.name = x := by
  cases hfind : env.locals.find? x with
  | some b' =>
    rw [lookup_bound hfind] at h
    cases h
    rw [Locals.find?_eq] at hfind
    exact ⟨List.mem_of_find?_eq_some hfind, by simpa using List.find?_some hfind⟩
  | none =>
    rw [lookup, hfind] at h
    cases hdef : env.store.lookup x with
    | some found =>
      rw [hdef] at h
      cases h
    | none =>
      rw [hdef] at h
      cases hb : Builtin.ofName? x <;> rw [hb] at h <;> cases h

theorem Env.lookup_of_defined {env : Env} {x : Name} {d : DefId} {v : Node}
    (h : env.lookup x = some (.defined d v)) : env.store.lookup x = some (d, v) := by
  rw [lookup] at h
  split at h
  · cases h
  · split at h
    · rename_i hdef
      cases h
      exact hdef
    · cases hb : Builtin.ofName? x <;> rw [hb] at h <;> cases h

theorem Env.ofName?_of_lookup {env : Env} {x : Name} {b : Builtin}
    (h : env.lookup x = some (.builtin b)) : Builtin.ofName? x = some b := by
  rw [lookup] at h
  split at h
  · cases h
  · split at h
    · cases h
    · obtain ⟨_, hname, heq⟩ := Option.map_eq_some_iff.1 h
      cases heq
      exact hname

/-- The definitions are those of the store, and no local binding hides one of them or a built-in
type. -/
structure Env.Over (store : Definitions) (env : Env) : Prop where
  store_eq : env.store = store
  names : ∀ b ∈ env.locals.bindings, store.IsFree b.name

namespace Env.Over

variable {store : Definitions} {env : Env} {x : Name}

theorem find?_eq_none (h : env.Over store) (hx : ¬ store.IsFree x) : env.locals.find? x = none := by
  rw [Locals.find?_eq, List.find?_eq_none]
  intro b hb hname
  have := h.names b hb
  rw [beq_iff_eq.1 hname] at this
  exact hx this

theorem lookup_defined (h : env.Over store) {d : DefId} {v : Node}
    (hx : store.lookup x = some (d, v)) : env.lookup x = some (.defined d v) := by
  have hfree : ¬ store.IsFree x := fun hfree => by simp [hfree.1] at hx
  rw [lookup, h.find?_eq_none hfree, h.store_eq, hx]

theorem lookup_builtin (h : env.Over store) {b : Builtin} (hb : store.lookup b.name = none) :
    env.lookup b.name = some (.builtin b) := by
  have hfree : ¬ store.IsFree b.name := fun hfree => by simpa [b.ofName?_name] using hfree.2
  rw [lookup, h.find?_eq_none hfree, h.store_eq, hb, b.ofName?_name]
  rfl

theorem lookup_free (h : env.Over store) (hx : store.IsFree x) (hfind : env.locals.find? x = none) :
    env.lookup x = none := by
  rw [lookup, hfind, h.store_eq, hx.1, hx.2]
  rfl

theorem freshName_eq_none (h : env.Over store) (hx : store.IsFree x)
    (hfind : env.locals.find? x = none) : env.freshName x = none := by
  apply freshName_of_free
  rw [isTaken, Locals.contains, hfind, Definitions.contains_eq, h.store_eq, hx.1]
  rfl

theorem push (h : env.Over store) {b : Binding} (hb : store.IsFree b.name) :
    (env.push b).Over store where
  store_eq := h.store_eq
  names c hc := by
    rcases List.mem_cons.1 hc with rfl | hc
    · exact hb
    · exact h.names c hc

end Env.Over

theorem Env.isOnStack_enterCall {env : Env} {n m : Node} (h : (env.enterCall n).isOnStack m = true) :
    m.id = n.id ∨ env.isOnStack m = true := by
  rw [isOnStack, Calls.contains_eq] at h ⊢
  simp only [enterCall, Calls.nodes_enter, List.any_cons, Bool.or_eq_true, Node.isSame,
    beq_iff_eq] at h ⊢
  exact h.imp_left Eq.symm

/-! ### Definitions that are not being looked into -/

theorem countP_lt_countP {α : Type} {p q : α → Bool} : ∀ {l : List α},
    (∀ a ∈ l, p a = true → q a = true) → (∃ a ∈ l, p a = false ∧ q a = true) →
    l.countP p < l.countP q
  | [], _, h => by
    obtain ⟨_, ha, -⟩ := h
    cases ha
  | a :: l, hpq, h => by
    obtain ⟨ha, hl⟩ := List.forall_mem_cons.1 hpq
    have hle : l.countP p ≤ l.countP q := List.countP_mono_left hl
    simp only [List.countP_cons]
    obtain ⟨b, hb, hp, hq⟩ := h
    -- the two tell the head apart, or an element of the tail
    rcases List.mem_cons.1 hb with rfl | hb
    · simp only [hp, hq, Bool.false_eq_true, if_false, if_true]
      omega
    · have hlt := countP_lt_countP hl ⟨b, hb, hp, hq⟩
      cases hpa : p a with
      | false =>
        simp only [Bool.false_eq_true, if_false]
        omega
      | true =>
        simp only [ha hpa, if_true]
        omega

namespace Env

/-- The number of definitions that are not being looked into. -/
def pending (store : Definitions) (env : Env) : Nat :=
  store.entries.countP fun entry => !env.isOnStack entry.2

theorem isOnStack_of_enterCall {env : Env} {n m : Node}
    (h : (env.enterCall n).isOnStack m = false) : env.isOnStack m = false := by
  rw [Env.isOnStack, Calls.contains_eq] at h ⊢
  simp only [Env.enterCall, Calls.nodes_enter, List.any_cons, Bool.or_eq_false_iff] at h
  exact h.2

theorem isOnStack_enterCall_self (env : Env) (n : Node) :
    (env.enterCall n).isOnStack n = true := by
  rw [Env.isOnStack, Calls.contains_eq]
  simp [Env.enterCall, Node.isSame]

theorem pending_enterCall_le (store : Definitions) (env : Env) (n : Node) :
    pending store (env.enterCall n) ≤ pending store env := by
  refine List.countP_mono_left fun entry _ h => ?_
  rw [Bool.not_eq_true'] at h ⊢
  exact isOnStack_of_enterCall h

theorem pending_enterCall_lt {store : Definitions} {env : Env} {x : Name} {d : DefId} {v : Node}
    (hx : store.lookup x = some (d, v)) (hv : env.isOnStack v = false) :
    pending store (env.enterCall v) < pending store env := by
  obtain ⟨entry, hentry, rfl⟩ := Definitions.mem_of_lookup hx
  refine countP_lt_countP (fun e _ h => ?_) ⟨entry, hentry, ?_, ?_⟩
  · rw [Bool.not_eq_true'] at h ⊢
    exact isOnStack_of_enterCall h
  · rw [isOnStack_enterCall_self]
    rfl
  · rw [hv]
    rfl

end Env

namespace FirstOrder

open Pass

theorem lookup_cons_of_ne {τ : Type} {Γ : List (Name × τ)} {x y : Name} (a : τ) (h : x ≠ y) :
    List.lookup x ((y, a) :: Γ) = Γ.lookup x := by
  rw [List.lookup_cons, beq_eq_false_iff_ne.2 h]

/-- A name that was not in scope hides no other one. -/
theorem lookup_cons_of_some {τ : Type} {Γ : List (Name × τ)} {x y : Name} {a : τ} (b : τ)
    (hy : Γ.lookup y = none) (hx : Γ.lookup x = some a) :
    List.lookup x ((y, b) :: Γ) = some a := by
  rw [lookup_cons_of_ne b, hx]
  rintro rfl
  rw [hx] at hy
  cases hy

/-- What is being looked into may not be entered. -/
def Avoids (p : NodeId → Prop) (env : Env) : Prop := ∀ n, env.isOnStack n = true → ¬ p n.id

/-- The names in scope are bound, each as its type asks for. -/
def Binds (P : Builtin → Binding → Prop) (Γ : List (Name × Builtin)) (env : Env) : Prop :=
  ∀ x a, Γ.lookup x = some a → ∃ b, env.locals.find? x = some b ∧ P a b

/-- No name is bound that is not in scope. -/
def Covers (Γ : List (Name × Builtin)) (env : Env) : Prop :=
  ∀ x, Γ.lookup x = none → env.locals.find? x = none

variable {store : Definitions} {Γ : List (Name × Builtin)} {env : Env}

theorem Avoids.enterCall {p : NodeId → Prop} (h : Avoids p env) (n : Node) :
    Avoids (fun i => p i ∧ i ≠ n.id) (env.enterCall n) := by
  rintro m hm ⟨hp, hne⟩
  rcases Env.isOnStack_enterCall hm with hid | hon
  · exact hne hid
  · exact h m hon hp

theorem Binds.nil {P : Builtin → Binding → Prop} : Binds P [] env := by
  intro x a hx
  cases hx

theorem Binds.push {P : Builtin → Binding → Prop} (h : Binds P Γ env) {a : Builtin} {b : Binding}
    (hb : P a b) : Binds P ((b.name, a) :: Γ) (env.push b) := by
  intro x c hx
  by_cases hname : x = b.name
  · subst hname
    rw [List.lookup_cons_self] at hx
    cases hx
    exact ⟨b, env.locals.find?_push_self b, hb⟩
  · rw [lookup_cons_of_ne a hname] at hx
    obtain ⟨b', hfind, hb'⟩ := h x c hx
    exact ⟨b', (Locals.find?_push_of_ne hname).trans hfind, hb'⟩

theorem Covers.push (h : Covers Γ env) (a : Builtin) (b : Binding) :
    Covers ((b.name, a) :: Γ) (env.push b) := by
  intro x hx
  by_cases hname : x = b.name
  · subst hname
    rw [List.lookup_cons_self] at hx
    cases hx
  · rw [lookup_cons_of_ne a hname] at hx
    exact (Locals.find?_push_of_ne hname).trans (h x hx)

/-- First-order code with its type. -/
abbrev Typed (store : Definitions) : Stage → List (Name × Builtin) → Node → Builtin → Prop :=
  Code (fun b => b) store

/-! ## Names and types -/

variable {F : Fault → Prop}

/-- A type expression becomes the type that it stands for. -/
theorem returns_declared (h : env.Over store) (hr : env.resolve = true) {n : Node} {b : Builtin}
    (hn : store.Declares n b) :
    Returns env (fun d => eval d n) F fun v => ∃ tag, v = .builtin tag b := by
  refine Returns.succ ?_
  cases hn with
  | builtin tag hb => exact returns_pure ⟨tag, rfl⟩
  | name tag hdata hb =>
    refine Eval.returns_evalFound tag (h.lookup_builtin hb) (fun _ _ => ?_) fun hkept => ?_
    · exact (returns_tagAt _).bind fun tag _ => returns_pure ⟨tag, rfl⟩
    · simp [Found.isPlaceholder, hr] at hkept

/-! ## Sequences -/

variable {ev : Nat → Node → Pass Node} {g : Stage} {e : Node} {a : Builtin}

/-- An expression in a sequence binds nothing. -/
theorem returns_item {P : Node → Prop} (h : Returns env (fun d => ev d e) F P)
    (hP : ∀ v, P v → v.isAlias = false) :
    Returns env (fun d => do Eval.bindLocal (← ev d e)) F P := by
  refine h.bind fun v hv => ?_
  rw [Eval.bindLocal_of_not_isAlias (hP v hv)]
  exact returns_pure hv

theorem leads_last {P : Node → Prop} {T : List Node → Prop} (h : Returns env (fun d => ev d e) F P)
    (hP : ∀ v, P v → v.isAlias = false) (hT : ∀ v, P v → T [v]) :
    Leads env (fun d => [e].mapM fun item => do Eval.bindLocal (← ev d item)) F
      fun vs e => T vs ∧ Opened env e := by
  simp only [List.mapM_cons, List.mapM_nil]
  exact (returns_item h hP).leads fun v hv => leads_pure ⟨hT v hv, .same⟩

theorem leads_next {P : Node → Prop} {T : List Node → Prop} {rest : List Node}
    (h : Returns env (fun d => ev d e) F P) (hP : ∀ v, P v → v.isAlias = false)
    (hrest : ∀ v, P v → Leads env (fun d => rest.mapM fun item => do Eval.bindLocal (← ev d item)) F
      fun vs e => T (v :: vs) ∧ Opened env e) :
    Leads env (fun d => (e :: rest).mapM fun item => do Eval.bindLocal (← ev d item)) F
      fun vs e => T vs ∧ Opened env e := by
  refine Eval.leads_cons (Leads.mono (returns_item h hP) ?_)
  rintro v _ ⟨hv, rfl⟩
  exact ⟨.same, hrest v hv⟩

/-- A sequence of one expression. -/
theorem returns_single {P : Node → Prop} (h : Returns env (fun d => ev d e) F P)
    (hP : ∀ v, P v → v.isAlias = false) :
    Returns env (fun d => Eval.evalSeq (ev d) [e]) F fun vs => ∃ v, vs = [v] ∧ P v := by
  refine Returns.under ?_ Guard.lawful_scope
  simp only [List.mapM_cons, List.mapM_nil]
  exact (returns_item h hP).bind fun v hv => returns_pure ⟨v, rfl, hv⟩

/-- The value of a sequence of one expression. -/
theorem returns_single_value {P : Node → Prop} (h : Returns env (fun d => ev d e) F P)
    (hP : ∀ v, P v → v.isAlias = false) (site : Span) :
    Returns env (fun d => Eval.evalSeq (ev d) [e] >>= (Eval.seqValue · site)) F P := by
  refine (returns_single h hP).bind fun vs hvs => ?_
  obtain ⟨v, rfl, hv⟩ := hvs
  exact Eval.returns_seqLast (fun _ => ⟨v, rfl, hv⟩) fun _ hany => by simp [hP v hv] at hany

/-! ## Control -/

theorem returns_binOp {op : Operator} {lhs rhs : Node} (hop : op ≠ .dot) (tag : Tag)
    (hl : Returns env (fun d => ev d lhs) F (Typed store g Γ · .number))
    (hr : Returns env (fun d => ev d rhs) F (Typed store g Γ · .number)) :
    Returns env (fun d => Eval.evalBinOp (ev d) tag op lhs rhs) F
      (Typed store g Γ · (if op.isArithmetic then .number else .bool)) := by
  refine Eval.returns_evalBinOp tag hop hl hr (fun _ _ _ _ l t _ _ _ _ hfold => ?_)
    fun a b t ha hb _ => .binOp t hop ha hb
  rw [← Operator.builtin_of_fold hfold]
  exact .lit t l

theorem returns_list {items : List Node} (tag : Tag)
    (h : ∀ e ∈ items, Returns env (fun d => ev d e) F (Typed store g Γ · a)) :
    Returns env (fun d => do
      let items ← items.mapM (ev d)
      return .list (← tagAt tag.span) items) F (Typed store g Γ · .list) := by
  exact (Returns.mapM_all h).bind fun vs hvs => (returns_tagAt _).bind fun t _ =>
    returns_pure (.list (a := a) t hvs)

section

variable {b : Builtin}

/-- A branch of one expression, where it is taken. -/
theorem returns_branch_value (h : Returns env (fun d => ev d e) F (Typed store g Γ · a)) (site : Span) :
    Returns env (fun d => Eval.evalSeq (ev d) [e] >>= (Eval.seqValue · site)) F (Typed store g Γ · a) :=
  returns_single_value h (fun _ hv => hv.isAlias) site

/-- A branch of one expression, where it stays. -/
theorem returns_branch_single (h : Returns env (fun d => ev d e) F (Typed store g Γ · a)) :
    Returns env (fun d => Eval.evalSeq (ev d) [e]) F fun vs => ∃ v, vs = [v] ∧ Typed store g Γ v a :=
  returns_single h fun _ hv => hv.isAlias

theorem returns_if {c e e' : Node} (tag : Tag)
    (hc : Returns env (fun d => ev d c) F (Typed store g Γ · .bool))
    (ht : Returns env (fun d => ev d e) F (Typed store g Γ · a))
    (he : Returns env (fun d => ev d e') F (Typed store g Γ · a)) :
    Returns env (fun d => Eval.evalIf (ev d) tag c [e] [e']) F (Typed store g Γ · a) := by
  refine Eval.returns_evalIf tag hc (fun _ _ _ => returns_branch_value ht tag.span)
    (fun _ _ _ => returns_branch_value he tag.span) (returns_branch_single ht)
    (returns_branch_single he) ?_
  rintro v _ _ t hv - ⟨v', rfl, hv'⟩ ⟨w', rfl, hw'⟩
  exact .ifElse t hv hv' hw'

theorem returns_while {c e : Node} (tag : Tag)
    (hc : Returns env (fun d => ev d c) F (Typed store g Γ · .bool))
    (he : Returns env (fun d => ev d e) F (Typed store g Γ · a)) :
    Returns env (fun d => Eval.step (ev d) (.whileDo tag c [e])) F (Typed store g Γ · a) := by
  refine hc.bind fun v hv => (returns_branch_single he).bind fun vs hvs => ?_
  obtain ⟨w, rfl, hw⟩ := hvs
  exact (returns_tagAt _).bind fun t _ => returns_pure (.whileDo t hv hw)

theorem returns_match {scrutinee : Node} {cases : List (Case Node)} (tag : Tag)
    (hs : Returns env (fun d => ev d scrutinee) F (Typed store g Γ · a))
    (hp : ∀ c ∈ cases, c.pattern.isWildcard = false →
      Returns env (fun d => ev d c.pattern) F (Typed store g Γ · a))
    (hb : ∀ c ∈ cases, ∃ e, c.body = [e] ∧ Returns env (fun d => ev d e) F (Typed store g Γ · b))
    (hw : ∃ c ∈ cases, c.pattern.isWildcard = true) :
    Returns env (fun d => Eval.evalMatch (ev d) tag scrutinee cases) F (Typed store g Γ · b) := by
  refine Eval.returns_evalMatch (B := fun vs => ∃ v, vs = [v] ∧ Typed store g Γ v b) tag hs hp
    (fun c hc => ?_) (fun c hc => ?_) (fun _ _ hnone => ?_) fun v cs t hv _ hcs => .matchOn t hv
      (Eval.pattern_of_kept hcs) (fun c hc => ?_) (fun c hc e he => ?_) (Eval.wildcard_of_kept hcs hw)
  · obtain ⟨e, he, hreturns⟩ := hb c hc
    rw [he]
    exact returns_branch_value hreturns c.span
  · obtain ⟨e, he, hreturns⟩ := hb c hc
    rw [he]
    exact returns_branch_single hreturns
  · obtain ⟨c, hc, hwild⟩ := hw
    rw [hnone c hc] at hwild
    cases hwild
  · obtain ⟨e, he, -⟩ := Eval.body_of_kept hcs c hc
    rw [he]
    rfl
  · obtain ⟨e', he', hbody⟩ := Eval.body_of_kept hcs c hc
    rw [he', List.mem_singleton] at he
    exact he ▸ hbody

end

end FirstOrder

end Residual
