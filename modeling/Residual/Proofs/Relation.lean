/-
Two passes side by side. A relation between counters, one between environments, one between faults and
one between results say what two runs have to do with each other; two passes are `Related` if runs of
them from related machines end in related ways. The rules follow the ways of building a pass, so that a
relation between two runs of the evaluator is a matter of one rule for each of its steps.
-/
import Residual.Proofs.Restoration

namespace Residual.Pass

variable {α α' β β' : Type}

/-- Two ways to end: with related results, or with related faults. -/
inductive Outcomes (F : Fault → Fault → Prop) (R : α → α' → Prop) :
    Except Fault α → Except Fault α' → Prop where
  | ok {a : α} {a' : α'} (h : R a a') : Outcomes F R (.ok a) (.ok a')
  | error {f f' : Fault} (h : F f f') : Outcomes F R (.error f) (.error f')

theorem Outcomes.mono {F : Fault → Fault → Prop} {R R' : α → α' → Prop} {r : Except Fault α}
    {r' : Except Fault α'} (h : Outcomes F R r r') (hR : ∀ a a', R a a' → R' a a') :
    Outcomes F R' r r' := by
  cases h with
  | ok ha => exact .ok (hR _ _ ha)
  | error hf => exact .error hf

/-- From related environments and counters, two passes end in related ways and leave related
environments and counters. -/
def Related (K : Counter → Counter → Prop) (E : Env → Env → Prop) (F : Fault → Fault → Prop)
    (R : α → α' → Prop) (m : Pass α) (m' : Pass α') : Prop :=
  ∀ s s' : Machine, E s.env s'.env → K s.nodes s'.nodes →
    Outcomes F R (m.runOn s).1 (m'.runOn s').1 ∧
      E (m.runOn s).2.env (m'.runOn s').2.env ∧ K (m.runOn s).2.nodes (m'.runOn s').2.nodes

variable {K : Counter → Counter → Prop} {E : Env → Env → Prop} {F : Fault → Fault → Prop}
  {R : α → α' → Prop} {Q : β → β' → Prop}

theorem related_pure {a : α} {a' : α'} (h : R a a') : Related K E F R (pure a) (pure a') :=
  fun _ _ hE hn => ⟨.ok h, hE, hn⟩

theorem related_throw {f f' : Fault} (h : F f f') :
    Related K E F R (throw f : Pass α) (throw f' : Pass α') :=
  fun _ _ hE hn => ⟨.error h, hE, hn⟩

theorem related_fail {e e' : TypeError} (h : F (.error e) (.error e')) :
    Related K E F R (fail e : Pass α) (fail e' : Pass α') := related_throw h

theorem related_env : Related K E F E Pass.env Pass.env := fun _ _ hE hn => ⟨.ok hE, hE, hn⟩

theorem related_tagAt {T : Tag → Tag → Prop} (span span' : Span)
    (h : ∀ c c' : Counter, K c c' → T ⟨c.next, span⟩ ⟨c'.next, span'⟩ ∧ K c.alloc.2 c'.alloc.2) :
    Related K E F T (tagAt span) (tagAt span') := fun s s' hE hn =>
  ⟨.ok (h s.nodes s'.nodes hn).1, hE, (h s.nodes s'.nodes hn).2⟩

theorem related_push {b b' : Binding} (h : ∀ e e', E e e' → E (e.push b) (e'.push b')) :
    Related K E F Eq (push b) (push b') :=
  fun s s' hE hn => ⟨.ok rfl, h s.env s'.env hE, hn⟩

theorem Related.mono {R' : α → α' → Prop} {m : Pass α} {m' : Pass α'} (h : Related K E F R m m')
    (hR : ∀ a a', R a a' → R' a a') : Related K E F R' m m' := fun s s' hE hn => by
  obtain ⟨ho, hends⟩ := h s s' hE hn
  exact ⟨ho.mono hR, hends⟩

theorem Related.bind {m : Pass α} {m' : Pass α'} {f : α → Pass β} {f' : α' → Pass β'}
    (hm : Related K E F R m m') (hf : ∀ a a', R a a' → Related K E F Q (f a) (f' a')) :
    Related K E F Q (m >>= f) (m' >>= f') := fun s s' hE hn => by
  obtain ⟨ho, hE', hn'⟩ := hm s s' hE hn
  rw [runOn_bind, runOn_bind]
  rcases hr : m.runOn s with ⟨r, t⟩
  rcases hr' : m'.runOn s' with ⟨r', t'⟩
  rw [hr, hr'] at ho hE' hn'
  cases ho with
  | ok h => exact hf _ _ h t t' hE' hn'
  | error h => exact ⟨.error h, hE', hn'⟩

theorem Related.map {m : Pass α} {m' : Pass α'} {f : α → β} {f' : α' → β'}
    (hm : Related K E F R m m') (hf : ∀ a a', R a a' → Q (f a) (f' a')) :
    Related K E F Q (f <$> m) (f' <$> m') := by
  rw [map_eq_pure_bind, map_eq_pure_bind]
  exact hm.bind fun a a' h => related_pure (hf a a' h)

/-- Under guards that put back what they change, it is enough that the environments inside are
related. -/
theorem Related.under {g g' : Guard} {m : Pass α} {m' : Pass α'} (hm : Related K E F R m m')
    (enter : ∀ e e', E e e' → E (g.enter e) (g'.enter e')) (h : Restores (m.under g))
    (h' : Restores (m'.under g')) : Related K E F R (m.under g) (m'.under g') := fun s s' hE hn => by
  obtain ⟨ho, -, hn'⟩ := hm ⟨g.enter s.env, s.nodes⟩ ⟨g'.enter s'.env, s'.nodes⟩ (enter _ _ hE) hn
  refine ⟨ho, ?_, hn'⟩
  rw [(h s).1, (h' s').1]
  exact hE

/-- Ordinary faults are handed on by both or by neither. -/
theorem Related.attempt {m : Pass α} {m' : Pass α'} (hm : Related K E F R m m')
    (hF : ∀ f f', F f f' → f'.isOrdinary = f.isOrdinary) :
    Related K E F (Outcomes F R) m.attempt m'.attempt := fun s s' hE hn => by
  obtain ⟨ho, hE', hn'⟩ := hm s s' hE hn
  rw [runOn_attempt, runOn_attempt]
  rcases hr : m.runOn s with ⟨r, t⟩
  rcases hr' : m'.runOn s' with ⟨r', t'⟩
  rw [hr, hr'] at ho hE' hn'
  cases ho with
  | ok h => exact ⟨.ok (.ok h), hE', hn'⟩
  | @error f f' h =>
    refine ⟨?_, hE', hn'⟩
    simp only [hF f f' h]
    split
    · exact .ok (.error h)
    · exact .error h

theorem related_liftExcept {r : Except Fault α} {r' : Except Fault α'} (h : Outcomes F R r r') :
    Related K E F R (liftM r : Pass α) (liftM r' : Pass α') := by
  cases h with
  | ok h => exact related_pure h
  | error h => exact related_throw h

end Residual.Pass
