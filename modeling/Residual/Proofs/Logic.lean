/-
What passes do, given the environment that they start in. A family of passes, one for each depth,
`Leads` to an outcome if from some depth on it ends in the same way: with a result of some kind, or
with a fault of some kind. If no fault is allowed, this says that the passes end with a result; of a
family that is the same pass at every depth it says what its result is, should there be one. There is
a rule for each way of building a pass, so that what the evaluator and the checker do is told step by
step, without their machine.
-/
import Mathlib.Data.List.Forall2
import Residual.Proofs.Approximation
import Residual.Proofs.Restoration

namespace Residual.Pass

variable {α β : Type} {env : Env}

/-! ## Outcomes -/

/-- No fault at all. -/
abbrev NoFault : Fault → Prop := fun _ => False

/-- Whatever the fault. -/
abbrev AnyFault : Fault → Prop := fun _ => True

/-- Every fault but that of a definition that meets itself. -/
abbrev NotVoid : Fault → Prop := (· ≠ .void)

/-- How a run ends: with a result that satisfies `P` together with the environment that is left, or
with a fault that satisfies `F`. -/
def Ends (F : Fault → Prop) (P : α → Env → Prop) : Except Fault α → Env → Prop
  | .ok a, e => P a e
  | .error f, _ => F f

/-- From some depth on, runs that start in the environment all end in the same way. -/
def Leads (env : Env) (m : Nat → Pass α) (F : Fault → Prop) (P : α → Env → Prop) : Prop :=
  ∀ s : Machine, s.env = env →
    ∃ r t, Ends F P r t.env ∧ ∃ depth, ∀ d ≥ depth, (m d).runOn s = (r, t)

/-- The passes lead to a result that satisfies `P`, and leave the environment as it was. -/
def Returns (env : Env) (m : Nat → Pass α) (F : Fault → Prop) (P : α → Prop) : Prop :=
  Leads env m F fun a e => P a ∧ e = env

variable {m : Nat → Pass α} {f : Nat → α → Pass β} {F : Fault → Prop}

/-! ## Rules -/

section

variable {P P' : α → Env → Prop} {Q : β → Env → Prop}

theorem Leads.mono (h : Leads env m F P) (hP : ∀ a e, P a e → P' a e) : Leads env m F P' :=
  fun s hs => by
    obtain ⟨r, t, hends, hrun⟩ := h s hs
    refine ⟨r, t, ?_, hrun⟩
    cases r with
    | ok a => exact hP _ _ hends
    | error e => exact hends

theorem Leads.bind (hm : Leads env m F P) (hf : ∀ a e, P a e → Leads e (fun d => f d a) F Q) :
    Leads env (fun d => m d >>= f d) F Q := fun s hs => by
  obtain ⟨r, t, hends, depth, hrun⟩ := hm s hs
  cases r with
  | error e =>
    refine ⟨.error e, t, hends, depth, fun d hd => ?_⟩
    rw [runOn_bind, hrun d hd]
  | ok a =>
    obtain ⟨r', u, hends', depth', hrun'⟩ := hf a t.env hends t rfl
    refine ⟨r', u, hends', max depth depth', fun d hd => ?_⟩
    rw [runOn_bind, hrun d (Nat.le_trans (Nat.le_max_left ..) hd)]
    exact hrun' d (Nat.le_trans (Nat.le_max_right ..) hd)

/-- What a step of a run leads to, the run leads to. -/
theorem Leads.succ (h : Leads env (fun d => m (d + 1)) F P) : Leads env m F P := fun s hs => by
  obtain ⟨r, t, hends, depth, hrun⟩ := h s hs
  refine ⟨r, t, hends, depth + 1, fun d hd => ?_⟩
  obtain ⟨k, rfl⟩ : ∃ k, d = k + 1 := ⟨d - 1, by omega⟩
  exact hrun k (by omega)

/-- A run that ends with a result at some depth ends as the passes do. -/
theorem Leads.of_run (h : Leads env m F P) (hm : ∀ d d', d ≤ d' → Approximates (m d) (m d'))
    {s t : Machine} {a : α} (depth : Nat) (hs : s.env = env)
    (hrun : (m depth).runOn s = (.ok a, t)) : P a t.env := by
  obtain ⟨r, t', hends, depth', hrun'⟩ := h s hs
  have hle := hm depth (max depth depth') (Nat.le_max_left ..) s (by rw [hrun]; simp)
  rw [hrun' _ (Nat.le_max_right ..), hrun] at hle
  cases hle
  exact hends

theorem leads_pure {a : α} (h : P a env) : Leads env (fun _ => pure a) F P :=
  fun s hs => ⟨.ok a, s, by rw [← hs] at h; exact h, 0, fun _ _ => rfl⟩

theorem leads_push (b : Binding) : Leads env (fun _ => push b) F fun _ e => e = env.push b :=
  fun s hs => ⟨.ok ⟨⟩, ⟨s.env.push b, s.nodes⟩, by rw [← hs]; rfl, 0, fun _ _ => rfl⟩

/-- What comes after a binding starts with it on top. -/
theorem Leads.push {b : Binding} (h : Leads (env.push b) m F P) :
    Leads env (fun d => do Pass.push b; m d) F P := by
  refine (leads_push b).bind ?_
  rintro _ _ rfl
  exact h

end

variable {P P' : α → Prop} {Q : β → Prop}

theorem Returns.mono (h : Returns env m F P) (hP : ∀ a, P a → P' a) : Returns env m F P' :=
  Leads.mono h fun a _ ⟨ha, he⟩ => ⟨hP a ha, he⟩

/-- More faults are allowed. -/
theorem Returns.faults {G : Fault → Prop} (h : Returns env m F P) (hG : ∀ e, F e → G e) :
    Returns env m G P := fun s hs => by
  obtain ⟨r, t, hends, hrun⟩ := h s hs
  refine ⟨r, t, ?_, hrun⟩
  cases r with
  | ok a => exact hends
  | error e => exact hG e hends

/-- Without faults, there are no faults of any kind. -/
theorem Returns.noFault (h : Returns env m NoFault P) : Returns env m F P :=
  h.faults fun _ he => he.elim

/-- Two things that are known of the result are true of one result. -/
theorem Returns.and (h : Returns env m F P) (h' : Returns env m F P') :
    Returns env m F fun a => P a ∧ P' a := fun s hs => by
  obtain ⟨r, t, hends, depth, hrun⟩ := h s hs
  obtain ⟨r', t', hends', depth', hrun'⟩ := h' s hs
  have heq := (hrun _ (Nat.le_max_left depth depth')).symm.trans
    (hrun' _ (Nat.le_max_right depth depth'))
  cases heq
  refine ⟨r, t, ?_, depth, hrun⟩
  cases r with
  | error e => exact hends
  | ok a => exact ⟨⟨hends.1, hends'.1⟩, hends.2⟩

/-- Passes that lead to a result end with it. -/
theorem Returns.exists_run {s : Machine} (h : Returns s.env m NoFault P) :
    ∃ a t depth, P a ∧ ∀ d ≥ depth, (m d).runOn s = (.ok a, t) := by
  obtain ⟨r, t, hends, depth, hrun⟩ := h s rfl
  cases r with
  | error f => exact hends.elim
  | ok a => exact ⟨a, t, depth, hends.1, hrun⟩

theorem returns_pure {a : α} (h : P a) : Returns env (fun _ => pure a) F P :=
  fun s hs => ⟨.ok a, s, ⟨h, hs⟩, 0, fun _ _ => rfl⟩

theorem returns_throw {e : Fault} (h : F e) : Returns env (fun _ => (throw e : Pass α)) F P :=
  fun s _ => ⟨.error e, s, h, 0, fun _ _ => rfl⟩

theorem returns_env : Returns env (fun _ => Pass.env) F (env = ·) :=
  fun s hs => ⟨.ok s.env, s, ⟨hs.symm, hs⟩, 0, fun _ _ => rfl⟩

theorem returns_tagAt (span : Span) : Returns env (fun _ => tagAt span) F (·.span = span) :=
  fun s hs => ⟨.ok ⟨s.nodes.next, span⟩, ⟨s.env, s.nodes.alloc.2⟩, ⟨rfl, hs⟩, 0, fun _ _ => rfl⟩

/-- A pass of a family, at one depth, has the results that the family leads to. -/
theorem Returns.at_depth (h : Returns env m AnyFault P)
    (hm : ∀ d d', d ≤ d' → Approximates (m d) (m d')) (depth : Nat) :
    Returns env (fun _ => m depth) AnyFault P := fun s hs => by
  refine ⟨((m depth).runOn s).1, ((m depth).runOn s).2, ?_, 0, fun _ _ => rfl⟩
  rcases hrun : (m depth).runOn s with ⟨r, t⟩
  cases r with
  | ok a => exact h.of_run hm depth hs hrun
  | error e => trivial

/-- Of a pass about which nothing is known, except that it puts back what it changes. -/
theorem Restores.returns {m : Pass α} (h : Restores m) (hF : ∀ e, F e) :
    Returns env (fun _ => m) F fun _ => True := fun s hs => by
  refine ⟨(m.runOn s).1, (m.runOn s).2, ?_, 0, fun _ _ => rfl⟩
  cases hr : (m.runOn s).1 with
  | ok a => exact ⟨trivial, (h s).1.trans hs⟩
  | error e => exact hF e

/-- What comes after a pass that returns starts in the same environment. -/
theorem Returns.leads {R : β → Env → Prop} (hm : Returns env m F P)
    (hf : ∀ a, P a → Leads env (fun d => f d a) F R) : Leads env (fun d => m d >>= f d) F R := by
  refine Leads.bind hm ?_
  rintro a _ ⟨ha, rfl⟩
  exact hf a ha

theorem Returns.bind (hm : Returns env m F P) (hf : ∀ a, P a → Returns env (fun d => f d a) F Q) :
    Returns env (fun d => m d >>= f d) F Q := hm.leads hf

theorem Returns.map {g : α → β} (hm : Returns env m F P) (h : ∀ a, P a → Q (g a)) :
    Returns env (fun d => g <$> m d) F Q := by
  simp only [map_eq_pure_bind]
  exact hm.bind fun a ha => returns_pure (h a ha)

theorem Returns.succ (h : Returns env (fun d => m (d + 1)) F P) : Returns env m F P := Leads.succ h

theorem Returns.under {g : Guard} (h : Returns (g.enter env) m F P) (hg : g.Lawful) :
    Returns env (fun d => (m d).under g) F P := fun s hs => by
  obtain ⟨r, t, hends, depth, hrun⟩ := h ⟨g.enter s.env, s.nodes⟩ (by rw [hs])
  refine ⟨r, ⟨g.leave s.env t.env, t.nodes⟩, ?_, depth, fun d hd => ?_⟩
  · cases r with
    | error e => exact hends
    | ok a =>
      refine ⟨hends.1, ?_⟩
      show g.leave s.env t.env = env
      rw [hends.2, ← hs]
      exact hg s.env
  · rw [runOn_under, hrun d hd]

/-- What is left on top of the environment goes with its scope. -/
theorem Leads.scope (h : Leads env m F fun a e => P a ∧ Opened env e) :
    Returns env (fun d => (m d).under .scope) F P := fun s hs => by
  obtain ⟨r, t, hends, depth, hrun⟩ := h s hs
  refine ⟨r, ⟨Guard.closeScope s.env t.env, t.nodes⟩, ?_, depth, fun d hd => ?_⟩
  · cases r with
    | error e => exact hends
    | ok a =>
      refine ⟨hends.1, ?_⟩
      show Guard.closeScope s.env t.env = env
      rw [hs]
      exact hends.2.closeScope_eq
  · have hrun' : (m d).runOn ⟨Guard.scope.enter s.env, s.nodes⟩ = (r, t) := hrun d hd
    rw [runOn_under, hrun']
    rfl

/-- The ordinary faults of an attempt are handed on, and only the others are faults of it. -/
theorem Returns.attempt_faults (h : Returns env m F P) (hr : ∀ d, Restores (m d)) :
    Returns env (fun d => (m d).attempt) (fun e => F e ∧ e.isOrdinary = false) fun r => match r with
      | .ok a => P a
      | .error e => F e := fun s hs => by
  obtain ⟨r, t, hends, depth, hrun⟩ := h s hs
  cases r with
  | ok a =>
    refine ⟨.ok (.ok a), t, hends, depth, fun d hd => ?_⟩
    rw [runOn_attempt, hrun d hd]
  | error e =>
    refine ⟨if e.isOrdinary then .ok (.error e) else .error e, t, ?_, depth, fun d hd => ?_⟩
    · split
      · exact ⟨hends, ((hr depth).env_eq (hrun depth (Nat.le_refl _))).trans hs⟩
      · rename_i hord
        exact ⟨hends, Bool.eq_false_iff.2 hord⟩
    · rw [runOn_attempt, hrun d hd]

theorem Returns.attempt (h : Returns env m F P) (hr : ∀ d, Restores (m d)) :
    Returns env (fun d => (m d).attempt) F fun r => match r with
      | .ok a => P a
      | .error e => F e :=
  (h.attempt_faults hr).faults fun _ he => he.1

/-! ## Traversals -/

/-- Each item of a list has a counterpart in the other one. -/
structure Traversed (R : α → β → Prop) (as : List α) (bs : List β) : Prop where
  result : ∀ a ∈ as, ∃ b ∈ bs, R a b
  origin : ∀ b ∈ bs, ∃ a ∈ as, R a b

theorem traversed_nil (R : α → β → Prop) : Traversed R [] [] :=
  ⟨fun _ h => (nomatch h), fun _ h => (nomatch h)⟩

theorem Traversed.cons {R : α → β → Prop} {a : α} {b : β} {as : List α} {bs : List β} (h : R a b)
    (hs : Traversed R as bs) : Traversed R (a :: as) (b :: bs) where
  result a' ha' := by
    rcases List.mem_cons.1 ha' with rfl | ha'
    · exact ⟨b, by simp, h⟩
    · obtain ⟨b', hb', h'⟩ := hs.result a' ha'
      exact ⟨b', by simp [hb'], h'⟩
  origin b' hb' := by
    rcases List.mem_cons.1 hb' with rfl | hb'
    · exact ⟨a, by simp, h⟩
    · obtain ⟨a', ha', h'⟩ := hs.origin b' hb'
      exact ⟨a', by simp [ha'], h'⟩

theorem Traversed.imp {R S : α → β → Prop} {as : List α} {bs : List β} (h : Traversed R as bs)
    (hRS : ∀ a b, R a b → S a b) : Traversed S as bs where
  result a ha := by
    obtain ⟨b, hb, hR⟩ := h.result a ha
    exact ⟨b, hb, hRS a b hR⟩
  origin b hb := by
    obtain ⟨a, ha, hR⟩ := h.origin b hb
    exact ⟨a, ha, hRS a b hR⟩

/-- A traversal returns the results in the order of the items, each as is known of its item. -/
theorem Returns.traverse {γ : Type} {R : γ → β → Prop} {as : List α} {cs : List γ}
    (h : List.Forall₂ (fun a c => Returns env (fun d => f d a) F (R c)) as cs) :
    Returns env (fun d => as.mapM (f d)) F (List.Forall₂ R cs) := by
  induction h with
  | nil =>
    simp only [List.mapM_nil]
    exact returns_pure .nil
  | cons h _ ih =>
    simp only [List.mapM_cons]
    exact h.bind fun b hb => ih.bind fun bs hbs => returns_pure (.cons hb hbs)

theorem Returns.forall₂ {R : α → β → Prop} {as : List α}
    (h : ∀ a ∈ as, Returns env (fun d => f d a) F (R a)) :
    Returns env (fun d => as.mapM (f d)) F (List.Forall₂ R as) :=
  Returns.traverse (List.forall₂_same.2 h)

theorem traversed_of_forall₂ {R : α → β → Prop} {as : List α} {bs : List β}
    (h : List.Forall₂ R as bs) : Traversed R as bs := by
  induction h with
  | nil => exact traversed_nil R
  | cons h _ ih => exact ih.cons h

/-- A traversal returns a result for each item. -/
theorem Returns.mapM {R : α → β → Prop} {as : List α}
    (h : ∀ a ∈ as, Returns env (fun d => f d a) F (R a)) :
    Returns env (fun d => as.mapM (f d)) F (Traversed R as) :=
  (Returns.forall₂ h).mono fun _ => traversed_of_forall₂

/-- What holds of the result for each item, holds of all results. -/
theorem Returns.mapM_all {as : List α} (h : ∀ a ∈ as, Returns env (fun d => f d a) F Q) :
    Returns env (fun d => as.mapM (f d)) F fun bs => ∀ b ∈ bs, Q b :=
  (Returns.mapM (R := fun _ => Q) h).mono fun _ hbs b hb => by
    obtain ⟨_, -, hQ⟩ := hbs.origin b hb
    exact hQ

end Residual.Pass

namespace Residual.Eval

open Pass

/-! ## Sequences -/

/-- An alias is bound, and bears the name of its binder from then on. -/
theorem leads_bindAlias {F : Fault → Prop} {env : Env} (tag xtag : Tag) (x : Name) (value : Node)
    (transparent : Bool) (link : Option DefId) :
    Leads env (fun _ => bindLocal (.assign tag (.ident xtag x) value transparent link)) F
      fun w e => (∃ tag xtag link, w = .assign tag (.ident xtag ((env.freshName x).getD x)) value
        transparent link) ∧
        e = env.push ⟨x, value, transparent || env.transparent, env.freshName x⟩ := by
  refine returns_env.leads fun _ henv => ?_
  subst henv
  refine Leads.push ?_
  cases env.freshName x with
  | none => exact leads_pure ⟨⟨_, _, _, rfl⟩, rfl⟩
  | some other =>
    refine (returns_tagAt _).leads fun t _ => (returns_tagAt _).leads fun t' _ => ?_
    exact leads_pure ⟨⟨_, _, _, rfl⟩, rfl⟩

end Residual.Eval
