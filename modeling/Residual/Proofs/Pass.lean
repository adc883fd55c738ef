/-
How passes run. A pass takes a machine to a result or a fault and to the machine that it leaves;
the equations here say what each way of building a pass does to the two, so that what follows
about the evaluator and the checker never opens the monad. A pass that ends with a result has
passed through each of its parts, and `runOn_bind_ok` gives them back one at a time.
-/
import Residual.Check

namespace Residual.Pass

variable {α β : Type}

/-! ## Equations -/

@[simp] theorem runOn_pure (a : α) (s : Machine) : (pure a : Pass α).runOn s = (.ok a, s) := rfl

@[simp] theorem runOn_throw (f : Fault) (s : Machine) :
    (throw f : Pass α).runOn s = (.error f, s) := rfl

@[simp] theorem runOn_fail (e : TypeError) (s : Machine) :
    (fail e : Pass α).runOn s = (.error (.error e), s) := rfl

theorem runOn_bind (m : Pass α) (f : α → Pass β) (s : Machine) :
    (m >>= f).runOn s = match m.runOn s with
      | (.ok a, s') => (f a).runOn s'
      | (.error e, s') => (.error e, s') := by
  show (ExceptT.bind m f : Pass β) s = _
  unfold ExceptT.bind ExceptT.mk runOn
  simp only [bind, StateT.bind]
  rcases m s with ⟨_ | a, s'⟩ <;> rfl

theorem runOn_map (f : α → β) (m : Pass α) (s : Machine) :
    (f <$> m).runOn s = match m.runOn s with
      | (.ok a, s') => (.ok (f a), s')
      | (.error e, s') => (.error e, s') := by
  rw [map_eq_pure_bind, runOn_bind]
  rfl

@[simp] theorem runOn_env (s : Machine) : Pass.env.runOn s = (.ok s.env, s) := rfl

@[simp] theorem runOn_tagAt (span : Span) (s : Machine) :
    (tagAt span).runOn s = (.ok ⟨s.nodes.next, span⟩, ⟨s.env, s.nodes.alloc.2⟩) := rfl

@[simp] theorem runOn_push (b : Binding) (s : Machine) :
    (push b).runOn s = (.ok ⟨⟩, ⟨s.env.push b, s.nodes⟩) := rfl

theorem runOn_under (g : Guard) (m : Pass α) (s : Machine) :
    (under g m).runOn s =
      let (r, after) := m.runOn ⟨g.enter s.env, s.nodes⟩
      (r, ⟨g.leave s.env after.env, after.nodes⟩) := rfl

theorem runOn_attempt (m : Pass α) (s : Machine) :
    (attempt m).runOn s = match m.runOn s with
      | (.ok a, after) => (.ok (.ok a), after)
      | (.error f, after) => (if f.isOrdinary then .ok (.error f) else .error f, after) := rfl

/-- The pass, given up where the machine does not meet a condition. -/
def provided (p : Machine → Bool) (m : Pass α) : Pass α := fun s =>
  if p s then m.runOn s else (.error .exhausted, s)

theorem runOn_provided (p : Machine → Bool) (m : Pass α) (s : Machine) :
    (provided p m).runOn s = m.runOn s ∧ p s = true ∨
      (provided p m).runOn s = (.error .exhausted, s) := by
  unfold provided
  cases h : p s with
  | true => exact .inl ⟨by simp [runOn, h], rfl⟩
  | false => exact .inr (by simp [runOn, h])

/-! ## Results -/

theorem runOn_bind_ok {m : Pass α} {f : α → Pass β} {s s' : Machine} {b : β}
    (h : (m >>= f).runOn s = (.ok b, s')) :
    ∃ a t, m.runOn s = (.ok a, t) ∧ (f a).runOn t = (.ok b, s') := by
  rw [runOn_bind] at h
  split at h
  · rename_i a t hm
    exact ⟨a, t, hm, h⟩
  · cases h

theorem runOn_bind_of_error {m : Pass α} {f : α → Pass β} {s : Machine} {e : Fault}
    (h : (m.runOn s).1 = .error e) : ((m >>= f).runOn s).1 = .error e := by
  rw [runOn_bind]
  rcases hm : m.runOn s with ⟨_ | a, t⟩ <;> rw [hm] at h <;> cases h
  rfl

theorem runOn_pure_ok {a b : α} {s s' : Machine} (h : (pure a : Pass α).runOn s = (.ok b, s')) :
    a = b ∧ s = s' := by
  rw [runOn_pure] at h
  cases h
  exact ⟨rfl, rfl⟩

theorem runOn_of_isOk {m : Pass α} {s : Machine} (h : (m.runOn s).1.isOk = true) :
    ∃ a t, m.runOn s = (.ok a, t) := by
  rcases hrun : m.runOn s with ⟨_ | a, t⟩
  · rw [hrun] at h
    cases h
  · exact ⟨a, t, rfl⟩

theorem runOn_under_ok {g : Guard} {m : Pass α} {s s' : Machine} {a : α}
    (h : (m.under g).runOn s = (.ok a, s')) :
    ∃ t, m.runOn ⟨g.enter s.env, s.nodes⟩ = (.ok a, t) ∧ t.nodes = s'.nodes := by
  rw [runOn_under] at h
  cases hm : m.runOn ⟨g.enter s.env, s.nodes⟩ with
  | mk r t =>
    rw [hm] at h
    cases h
    exact ⟨t, rfl, rfl⟩

end Residual.Pass

namespace Residual.Eval

theorem bindLocal_of_not_isAlias {v : Node} (h : v.isAlias = false) : bindLocal v = pure v := by
  unfold bindLocal
  split
  · cases h
  · rfl

end Residual.Eval

namespace Residual.Check

/-- The fault of a branch is that of one of its arms, and each of its types is that of an arm. -/
theorem knownTypes_mem : ∀ arms : List (Except Fault Node × Span),
    (∃ f, knownTypes arms = .error f ∧ ∃ arm ∈ arms, arm.1 = .error f) ∨
      ∃ known, knownTypes arms = .ok known ∧ ∀ k ∈ known, (.ok k.1, k.2) ∈ arms
  | [] => .inr ⟨[], rfl, List.forall_mem_nil _⟩
  | (.error .void, _) :: arms => by
    rw [knownTypes]
    rcases knownTypes_mem arms with ⟨f, hf, arm, harm, heq⟩ | ⟨known, hknown, hall⟩
    · exact .inl ⟨f, hf, arm, List.mem_cons_of_mem _ harm, heq⟩
    · exact .inr ⟨known, hknown, fun k hk => List.mem_cons_of_mem _ (hall k hk)⟩
  | (.error (.error e), _) :: _ => .inl ⟨.error e, rfl, _, List.mem_cons_self, rfl⟩
  | (.error (.contradiction func ty), _) :: _ =>
    .inl ⟨.contradiction func ty, rfl, _, List.mem_cons_self, rfl⟩
  | (.error .exhausted, _) :: _ => .inl ⟨.exhausted, rfl, _, List.mem_cons_self, rfl⟩
  | (.ok ty, site) :: arms => by
    rcases knownTypes_mem arms with ⟨f, hf, arm, harm, heq⟩ | ⟨known, hknown, hall⟩
    · refine .inl ⟨f, ?_, arm, List.mem_cons_of_mem _ harm, heq⟩
      simp only [knownTypes, hf]
      rfl
    · refine .inr ⟨(ty, site) :: known, ?_, ?_⟩
      · simp only [knownTypes, hknown]
        rfl
      · exact List.forall_mem_cons.2
          ⟨List.mem_cons_self, fun k hk => List.mem_cons_of_mem _ (hall k hk)⟩

end Residual.Check
