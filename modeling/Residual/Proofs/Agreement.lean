/-
Environments that agree on a set of names. A pass over a node looks up the names that occur in it, those
that occur in what it finds, and, for binders, the names `x#k` in place of `x`. So if a set is closed
under the latter, and what its names stand for stays within the set, then two environments that agree on
the set are the same to every node within it: evaluating and checking the node end in the same way, with
the same identities, at every depth.
-/
import Residual.Proofs.Accord
import Residual.Proofs.Plain

namespace Residual

/-! ## Environments -/

/-- The value and the other name of the binding are within the set. -/
structure Binding.Within (P : Name → Prop) (b : Binding) : Prop where
  value : b.value.Within P
  rename : ∀ x, b.rename = some x → P x

/-- Two environments that differ at most in what names outside a set stand for. What the names of
the set stand for is within the set. -/
structure Env.Agree (P : Name → Prop) (e e' : Env) : Prop where
  bound : ∀ x, P x → e.locals.find? x = e'.locals.find? x
  bound_within : ∀ x b, P x → e.locals.find? x = some b → b.Within P
  defined : ∀ x, P x → e.store.lookup x = e'.store.lookup x
  defined_within : ∀ x d v, P x → e.store.lookup x = some (d, v) → v.Within P
  calls : e.calls = e'.calls
  resolve : e.resolve = e'.resolve
  transparent : e.transparent = e'.transparent
  links : e.links = e'.links

/-- Identities are the same. -/
def Numbering.same : Numbering where
  id i := i
  since := 0
  ahead := 0
  injective _ _ h := h
  made _ _ := rfl

/-- The names of a closed set are used as they are, and nothing else differs. -/
def Likeness.agreeing {P : Name → Prop} (closed : Name.IsClosed P) : Likeness :=
  .within closed .same .same

section

variable {P : Name → Prop} {closed : Name.IsClosed P}

theorem Likeness.exact_agreeing : (agreeing closed).Exact := ⟨plain_within, rfl, fun _ _ h => h⟩

theorem Node.Within.alike {n : Node} (h : n.Within P) : n.Alike (.agreeing closed) n := by
  have hexact : (Likeness.agreeing closed).Exact := Likeness.exact_agreeing
  have htyped : n.Typed (.agreeing closed) := fun _ _ _ _ => trivial
  have halike := htyped.alike_relabel hexact.plain h
  rwa [hexact.tags_eq, Node.relabel_same] at halike

/-- Environments that agree are alike. -/
theorem Env.Agree.alike {e e' : Env} (h : Agree P e e') : e.Alike (.agreeing closed) e' where
  bound := by
    rintro x x' ⟨rfl, hx⟩
    rw [← h.bound x hx]
    cases hfind : e.locals.find? x with
    | none => exact .none
    | some b =>
      have hb := h.bound_within x b hx hfind
      exact .some ⟨.value hb.value.alike, rfl, rfl, hb.rename⟩
  defined := by
    rintro x x' ⟨rfl, hx⟩
    rw [← h.defined x hx]
    cases hlookup : e.store.lookup x with
    | none => exact .none
    | some found => exact .some ⟨rfl, (h.defined_within x _ _ hx hlookup).alike⟩
  calls := by
    rw [h.calls]
    rfl
  resolve := h.resolve.symm
  transparent := h.transparent.symm
  links _ _ := by rw [h.links]; rfl

end

/-! ## Passes -/

/-- In environments that agree on a set of names, two passes end in the same way and leave the same
counter. -/
abbrev Agrees {α : Type} (P : Name → Prop) (m m' : Pass α) : Prop :=
  Pass.Related Eq (Env.Agree P) Eq Eq m m'

section

open Pass

variable {α : Type} {P : Name → Prop}

theorem Pass.Outcomes.eq {r r' : Except Fault α} (h : Outcomes Eq Eq r r') : r = r' := by
  cases h with
  | ok h => rw [h]
  | error h => rw [h]

/-- Passes that go in parallel where nothing differs agree. -/
theorem Parallel.agrees {closed : Name.IsClosed P} {R : α → α → Prop} {m : Pass α}
    (h : Parallel (.agreeing closed) R m m) (hR : ∀ a a', R a a' → a' = a) (hm : Restores m) :
    Agrees P m m := by
  intro s s' henv hc
  have hahead : (Likeness.agreeing closed).Ahead s.nodes s'.nodes := by
    rw [hc]
    exact ⟨Nat.zero_le _, rfl⟩
  obtain ⟨hends, -, -, hnodes⟩ := h s s' henv.alike hahead
  refine ⟨?_, ?_, ?_⟩
  · generalize (m.runOn s).1 = r, (m.runOn s').1 = r' at hends
    cases hends with
    | ok ha => exact .ok (hR _ _ ha).symm
    | error hf => exact .error (hf.eq_of_exact Likeness.exact_agreeing).symm
  · rw [(hm s).1, (hm s').1]
    exact henv
  · generalize (m.runOn s).2.nodes = c, (m.runOn s').2.nodes = c' at hnodes
    obtain ⟨next⟩ := c
    obtain ⟨next'⟩ := c'
    exact congrArg Counter.mk hnodes.symm

/-- Environments that agree on a set of names are the same to a node within the set. -/
theorem agrees_eval (closed : Name.IsClosed P) (depth : Nat) {n : Node} (hn : n.Within P) :
    Agrees P (eval depth n) (eval depth n) :=
  ((keeps_eval (.agreeing closed) depth).node hn.alike).agrees
    (fun _ _ ha => ha.eq_of_exact Likeness.exact_agreeing) (restores_eval depth n)

theorem agrees_check (closed : Name.IsClosed P) (depth : Nat) {n : Node} (hn : n.Within P) :
    Agrees P (check depth n) (check depth n) :=
  ((keeps_check (.agreeing closed) depth).node hn.alike).agrees
    (fun _ _ ha => ha.eq_of_exact Likeness.exact_agreeing) (restores_check depth n)

end

end Residual
