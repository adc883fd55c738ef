/-
When one value does what another does. Literals must be equal; of two functions, the second must give
to related arguments a result related to that of the first, whenever the first gives one. Functions
are values, so the relation is about itself, and is taken by the number of calls that are left:
`Upto k` looks `k` calls far, and `Refines` looks as far as one likes.

The main results are that a node evaluated in related scopes has related values (`fundamental`), that
two functions are related as soon as they agree on equal arguments (`refines_closure`), and that
`Refines` composes.
-/
import Residual.Proofs.Names
import Residual.Proofs.Reference

namespace Residual.Reference

open Node

/-! ## As far as some calls -/

/-- `w` does what `v` does, as far as `k` calls of `v` tell. -/
def Upto (k : Nat) : Value → Value → Prop
  | .lit a, .lit b => a = b
  | .closure s x body, .closure s' x' body' =>
    ∀ j < k, ∀ u u', Upto j u u' → ∀ i ≤ j, ∀ v, EvaluatesSeq ((x, u) :: s) body i v →
      ∃ i' v', EvaluatesSeq ((x', u') :: s') body' i' v' ∧ Upto (j - i) v v'
  | _, _ => False
termination_by k

theorem upto_lit {k : Nat} {a : Literal} {w : Value} : Upto k (.lit a) w ↔ w = .lit a := by
  cases w with
  | lit b =>
    rw [Upto, Value.lit.injEq]
    exact eq_comm
  | closure => simp [Upto]

theorem Upto.closure_left {k : Nat} {s : Scope} {x : Name} {body : List Node} {w : Value}
    (h : Upto k (.closure s x body) w) : ∃ s' x' body', w = .closure s' x' body' := by
  cases w with
  | lit => simp [Upto] at h
  | closure s' x' body' => exact ⟨s', x', body', rfl⟩

theorem upto_closure {k : Nat} {s s' : Scope} {x x' : Name} {body body' : List Node} :
    Upto k (.closure s x body) (.closure s' x' body') ↔
      ∀ j < k, ∀ u u', Upto j u u' → ∀ i ≤ j, ∀ v, EvaluatesSeq ((x, u) :: s) body i v →
        ∃ i' v', EvaluatesSeq ((x', u') :: s') body' i' v' ∧ Upto (j - i) v v' := by
  rw [Upto]

theorem Upto.mono {j k : Nat} {v w : Value} (h : Upto k v w) (hj : j ≤ k) : Upto j v w := by
  cases v with
  | lit a => exact upto_lit.2 (upto_lit.1 h)
  | closure s x body =>
    obtain ⟨s', x', body', rfl⟩ := h.closure_left
    exact upto_closure.2 fun i hi => upto_closure.1 h i (Nat.lt_of_lt_of_le hi hj)

/-- What the first scope gives to some names, the second gives to them as far as `k` calls tell. -/
def ScopesUpto (k : Nat) (names : List Name) (s s' : Scope) : Prop :=
  ∀ x ∈ names, ∀ v, s.lookup x = some v → ∃ v', s'.lookup x = some v' ∧ Upto k v v'

theorem ScopesUpto.mono {j k : Nat} {names names' : List Name} {s s' : Scope}
    (h : ScopesUpto k names s s') (hj : j ≤ k) (hnames : ∀ x ∈ names', x ∈ names) :
    ScopesUpto j names' s s' := fun x hx v hv => by
  obtain ⟨v', hv', hupto⟩ := h x (hnames x hx) v hv
  exact ⟨v', hv', hupto.mono hj⟩

theorem ScopesUpto.cons {k : Nat} {names names' : List Name} {s s' : Scope} {x : Name} {u u' : Value}
    (h : ScopesUpto k names s s') (hu : Upto k u u') (hnames : ∀ y ∈ names', y ≠ x → y ∈ names) :
    ScopesUpto k names' ((x, u) :: s) ((x, u') :: s') := fun y hy v hv => by
  by_cases hyx : y = x
  · subst hyx
    rw [List.lookup_cons_self] at hv ⊢
    cases hv
    exact ⟨u', rfl, hu⟩
  · have hne : (y == x) = false := by simpa using hyx
    rw [List.lookup_cons, hne] at hv ⊢
    exact h y (hnames y hy hyx) v hv

/-! ## Nodes in related scopes -/

/-- A sequence has related values in scopes that are related as far as `k` calls tell. -/
def Transfers (k : Nat) : Prop := ∀ {s s' : Scope} {ns : List Node} {i : Nat} {v : Value},
  EvaluatesSeq s ns i v → i ≤ k → ScopesUpto k (freeSeq ns) s s' →
    ∃ i' v', EvaluatesSeq s' ns i' v' ∧ Upto (k - i) v v'

mutual

-- the body of a function is no part of how the function is evaluated, so it is left to fewer calls
theorem Evaluates.transfer {k : Nat} (fewer : ∀ j < k, Transfers j) :
    ∀ {m : Nat} {s s' : Scope} {n : Node} {i : Nat} {v : Value},
    Evaluates s n i v → m ≤ k → i ≤ m → ScopesUpto m n.free s s' →
      ∃ i' v', Evaluates s' n i' v' ∧ Upto (m - i) v v'
  | _, _, _, _, _, _, .lit, _, _, _ => ⟨0, _, .lit, upto_lit.2 rfl⟩
  | _, _, _, _, _, _, .ident h, _, _, hs => by
    obtain ⟨v', hv', hupto⟩ := hs _ List.mem_cons_self _ h
    exact ⟨0, v', .ident hv', hupto⟩
  | m, _, _, _, _, _, .func, hm, _, hs => by
    refine ⟨0, _, .func, upto_closure.2 fun j hj u u' hu i hi v hv => ?_⟩
    refine fewer j (by omega) hv hi ((hs.mono (by omega) fun _ h => h).cons hu fun y hy hne => ?_)
    exact mem_free_func.2 (.inr ⟨hy, hne⟩)
  | m, _, _, _, _, _, .binOp (i := i) (j := j) ha hb h, hm, hi, hs => by
    have hop := Operator.ne_dot_of_fold h
    obtain ⟨i', v', ha', hv'⟩ := ha.transfer fewer hm (by omega)
      (hs.mono (Nat.le_refl m) fun x hx => (mem_free_binOp hop).2 (.inl hx))
    obtain ⟨j', w', hb', hw'⟩ := hb.transfer fewer hm (by omega)
      (hs.mono (Nat.le_refl m) fun x hx => (mem_free_binOp hop).2 (.inr hx))
    cases upto_lit.1 hv'
    cases upto_lit.1 hw'
    exact ⟨i' + j', _, .binOp ha' hb' h, upto_lit.2 rfl⟩
  | m, _, _, _, _, _, .call (i := i) (j := j) (k := l) hf ha hbody, hm, hi, hs => by
    obtain ⟨i', f', hf', hfupto⟩ := hf.transfer fewer hm (by omega)
      (hs.mono (Nat.le_refl m) fun x hx => mem_free_call.2 (.inl hx))
    obtain ⟨j', u', ha', hu⟩ := ha.transfer fewer hm (by omega)
      (hs.mono (Nat.le_refl m) fun x hx => mem_free_call.2 (.inr hx))
    obtain ⟨s', x', body', rfl⟩ := hfupto.closure_left
    -- the call itself leaves one call less for its body
    obtain ⟨l', v', hbody', hv⟩ := upto_closure.1 hfupto (m - i - j - 1) (by omega) _ u'
      (hu.mono (by omega)) l (by omega) _ hbody
    exact ⟨i' + j' + l' + 1, v', .call hf' ha' hbody', hv.mono (by omega)⟩

theorem EvaluatesSeq.transfer {k : Nat} (fewer : ∀ j < k, Transfers j) :
    ∀ {m : Nat} {s s' : Scope} {ns : List Node} {i : Nat} {v : Value},
    EvaluatesSeq s ns i v → m ≤ k → i ≤ m → ScopesUpto m (freeSeq ns) s s' →
      ∃ i' v', EvaluatesSeq s' ns i' v' ∧ Upto (m - i) v v'
  | m, _, _, _, _, _, .last h, hm, hi, hs => by
    obtain ⟨i', v', h', hv⟩ := h.transfer fewer hm hi
      (hs.mono (Nat.le_refl m) fun x hx => mem_freeSeq_cons.2 (.inl hx))
    exact ⟨i', v', .last h', hv⟩
  | m, _, _, _, _, _, .bind (i := i) (j := j) (x := x) h hrest, hm, hi, hs => by
    obtain ⟨i', u', h', hu⟩ := h.transfer fewer hm (by omega)
      (hs.mono (Nat.le_refl m) fun x hx => mem_freeSeq_cons.2 (.inl hx))
    have hscopes := (hs.mono (by omega : m - i ≤ m) fun x hx => hx).cons (x := x) hu
      fun _ => mem_freeSeq_assign
    obtain ⟨j', v', hrest', hv⟩ := hrest.transfer fewer (by omega) (by omega) hscopes
    exact ⟨i' + j', v', .bind h' hrest', hv.mono (by omega)⟩
  | m, _, _, _, _, _, .next (n := n) (i := i) (j := j) h hrest, hm, hi, hs => by
    obtain ⟨i', u', h', -⟩ := h.transfer fewer hm (by omega)
      (hs.mono (Nat.le_refl m) fun x hx => mem_freeSeq_cons.2 (.inl hx))
    have hbinds : n.boundName? = none := by cases h <;> rfl
    have hscopes := hs.mono (by omega : m - i ≤ m) fun x hx =>
      mem_freeSeq_cons.2 (.inr ⟨hx, by simp [hbinds]⟩)
    obtain ⟨j', v', hrest', hv⟩ := hrest.transfer fewer (by omega) (by omega) hscopes
    exact ⟨i' + j', v', .next h' hrest', hv.mono (by omega)⟩

end

theorem fundamental (k : Nat) : Transfers k := by
  induction k using Nat.strongRecOn with
  | ind k fewer => exact fun h hi hs => h.transfer fewer (Nat.le_refl k) hi hs

/-! ## However far -/

/-- `w` does what `v` does. -/
def Refines (v w : Value) : Prop := ∀ k, Upto k v w

theorem refines_lit {a : Literal} {w : Value} (h : Refines (.lit a) w) : w = .lit a :=
  upto_lit.1 (h 0)

theorem sizeOf_lt_of_lookup {s : Scope} {x : Name} {v : Value} (h : s.lookup x = some v) :
    sizeOf v < sizeOf s := by
  obtain ⟨before, after, rfl, -⟩ := List.lookup_eq_some_iff.1 h
  have hmem : (x, v) ∈ before ++ (x, v) :: after := by simp
  have hlt := List.sizeOf_lt_of_mem hmem
  simp only [Prod.mk.sizeOf_spec] at hlt
  omega

theorem upto_refl (k : Nat) : ∀ v : Value, Upto k v v
  | .lit _ => upto_lit.2 rfl
  | .closure s x body => by
    refine upto_closure.2 fun j hj u u' hu i hi v hv => fundamental j hv hi ?_
    have hs : ScopesUpto j (freeSeq body) s s := fun y _ w hw => ⟨w, hw, upto_refl j w⟩
    exact hs.cons hu fun y hy _ => hy
termination_by v => v
decreasing_by
  have := sizeOf_lt_of_lookup hw
  simp only [Value.closure.sizeOf_spec]
  omega

theorem refines_refl (v : Value) : Refines v v := fun k => upto_refl k v

theorem Refines.closure_left {s : Scope} {x : Name} {body : List Node} {w : Value}
    (h : Refines (.closure s x body) w) : ∃ s' x' body', w = .closure s' x' body' :=
  (h 0).closure_left

/-- A result that is related for each number of calls is related, if there is but one. -/
theorem exists_refines {P : Value → Prop} {v : Value} (unique : ∀ {w w'}, P w → P w' → w = w')
    (h : ∀ k, ∃ w, P w ∧ Upto k v w) : ∃ w, P w ∧ Refines v w := by
  obtain ⟨w, hw, -⟩ := h 0
  refine ⟨w, hw, fun k => ?_⟩
  obtain ⟨w', hw', hk⟩ := h k
  rwa [unique hw hw']

/-- Related functions give related results to related arguments. -/
theorem Refines.evaluatesSeq {s s' : Scope} {x x' : Name} {body body' : List Node} {u u' v : Value}
    {i : Nat} (hf : Refines (.closure s x body) (.closure s' x' body')) (hu : Refines u u')
    (h : EvaluatesSeq ((x, u) :: s) body i v) :
    ∃ i' v', EvaluatesSeq ((x', u') :: s') body' i' v' ∧ Refines v v' := by
  obtain ⟨v', ⟨i', h'⟩, hv⟩ := exists_refines
    (P := fun w => ∃ j, EvaluatesSeq ((x', u') :: s') body' j w)
    (fun ⟨_, h⟩ ⟨_, h'⟩ => h.deterministic h') fun k => by
      obtain ⟨i', v', h', hv⟩ :=
        upto_closure.1 (hf (k + i + 1)) (k + i) (by omega) u u' (hu (k + i)) i (by omega) v h
      exact ⟨v', ⟨i', h'⟩, hv.mono (by omega)⟩
  exact ⟨i', v', h', hv⟩

theorem Upto.trans_refines : ∀ {k : Nat} {u v w : Value}, Upto k u v → Refines v w → Upto k u w
  | k, .lit a, v, w, huv, hvw => by
    cases upto_lit.1 huv
    rw [refines_lit hvw]
    exact huv
  | k, .closure s x body, v, w, huv, hvw => by
    obtain ⟨s', x', body', rfl⟩ := huv.closure_left
    obtain ⟨s'', x'', body'', rfl⟩ := hvw.closure_left
    refine upto_closure.2 fun j hj a a' ha i hi r hr => ?_
    obtain ⟨i', r', hr', hupto⟩ := upto_closure.1 huv j hj a a' ha i hi r hr
    obtain ⟨i'', r'', hr'', hrefines⟩ := hvw.evaluatesSeq (refines_refl a') hr'
    exact ⟨i'', r'', hr'', hupto.trans_refines hrefines⟩
termination_by k => k

theorem Refines.trans {u v w : Value} (huv : Refines u v) (hvw : Refines v w) : Refines u w :=
  fun k => (huv k).trans_refines hvw

/-- Functions are related if they give related results to equal arguments. -/
theorem refines_closure {s s' : Scope} {x x' : Name} {body body' : List Node}
    (h : ∀ u i v, EvaluatesSeq ((x, u) :: s) body i v →
      ∃ i' v', EvaluatesSeq ((x', u) :: s') body' i' v' ∧ Refines v v') :
    Refines (.closure s x body) (.closure s' x' body') := fun k => by
  refine upto_closure.2 fun j hj u u' hu i hi v hv => ?_
  -- first the argument is replaced, then the function
  obtain ⟨i₁, v₁, hv₁, hupto⟩ :=
    upto_closure.1 (upto_refl k (.closure s x body)) j hj u u' hu i hi v hv
  obtain ⟨i₂, v₂, hv₂, hrefines⟩ := h u' i₁ v₁ hv₁
  exact ⟨i₂, v₂, hv₂, hupto.trans_refines hrefines⟩

/-- A node does not notice a change of the scope at names that are not free in it. -/
theorem Evaluates.of_lookup_eq {s s' : Scope} {n : Node} {i : Nat} {v : Value}
    (h : Evaluates s n i v) (hs : ∀ x ∈ n.free, s'.lookup x = s.lookup x) :
    ∃ i' v', Evaluates s' n i' v' ∧ Refines v v' := by
  obtain ⟨v', ⟨i', h'⟩, hv⟩ := exists_refines (P := fun w => ∃ j, Evaluates s' n j w)
    (fun ⟨_, h⟩ ⟨_, h'⟩ => h.deterministic h') fun k => by
      obtain ⟨i', v', h', hv⟩ := h.transfer (fun j _ => fundamental j) (Nat.le_refl (k + i))
        (by omega) fun x hx w hw => ⟨w, (hs x hx).trans hw, upto_refl _ w⟩
      exact ⟨v', ⟨i', h'⟩, hv.mono (by omega)⟩
  exact ⟨i', v', h', hv⟩

end Residual.Reference
