/-
What a builder hands out. Locations and identities of types are drawn from one counter. Whatever a
builder is asked for, and in whatever order, its answers show all that is drawn, and the draws bear
the numbers of the counter one by one. So no two locations start at the same offset, no two
identities are the same, whatever their stems, and records and enums made for different requests are
not compatible. The exception is a node around given content that brings an identity along: a copy
of a record is compatible with the record.

`Draws before m shown` is a judgement on construction steps, with one rule for each way of building
a step: if `before` has been drawn when `m` starts, what has been drawn when it ends is what its
result shows.
-/
import Mathlib.Data.List.Basic
import Residual.Builder
import Residual.Proofs.Compatibility
import Residual.Proofs.FreshName

namespace Residual.Build

/-! ## Draws -/

/-- What is drawn from the counter of a builder. -/
inductive Draw where
  | span (s : Span)
  | typeId (id : TypeId)

namespace Draw

def typeId? : Draw → Option TypeId
  | span _ => none
  | typeId id => some id

/-- The draw bears the number `n`. -/
def Bears (n : Nat) : Draw → Prop
  | span s => s = .bare (n + 1) (n + 2)
  | typeId id => ∃ stem, id = Env.suffixed stem n

end Draw

/-- A counter gives the draws in this order while it goes from `n` to `m`. -/
inductive Issued : Nat → List Draw → Nat → Prop
  | nil (n : Nat) : Issued n [] n
  | cons {n m : Nat} {d : Draw} {ds : List Draw} (bears : d.Bears n) (rest : Issued (n + 1) ds m) :
    Issued n (d :: ds) m

namespace Issued

variable {n m : Nat} {ds : List Draw}

theorem append {k : Nat} {es : List Draw} (h : Issued n ds m) (h' : Issued m es k) :
    Issued n (ds ++ es) k := by
  induction h with
  | nil => exact h'
  | cons bears _ ih => exact .cons bears (ih h')

end Issued

/-! ## Construction steps -/

section

variable {α β : Type} {before : List Draw}

/-- If `before` has been drawn when the step starts, what has been drawn when it ends is what its
result shows. -/
def Draws (before : List Draw) (m : Build α) (shown : α → List Draw) : Prop :=
  ∀ b, ∃ ds, before ++ ds = shown (m.run b).1 ∧ Issued b.places.next ds (m.run b).2.places.next

theorem Draws.pure {a : α} {shown : α → List Draw} (h : before = shown a) :
    Draws before (pure a) shown := fun _ => ⟨[], (List.append_nil _).trans h, .nil _⟩

theorem Draws.bind {m : Build α} {f : α → Build β} {middle : α → List Draw}
    {shown : β → List Draw} (hm : Draws before m middle) (hf : ∀ a, Draws (middle a) (f a) shown) :
    Draws before (m >>= f) shown := by
  intro b
  obtain ⟨ds, hds, hissued⟩ := hm b
  obtain ⟨es, hes, hissued'⟩ := hf (m.run b).1 (m.run b).2
  rw [← hds, List.append_assoc] at hes
  exact ⟨ds ++ es, hes, hissued.append hissued'⟩

theorem Draws.map {m : Build α} {f : α → β} {shown : β → List Draw}
    (h : Draws before m fun a => shown (f a)) : Draws before (f <$> m) shown := h

/-- Each step of a sequence adds what its own result shows. -/
theorem Draws.mapM {f : α → Build β} {shown : β → List Draw}
    (hf : ∀ a before, Draws before (f a) fun c => before ++ shown c) (as : List α) :
    Draws before (as.mapM f) fun cs => before ++ cs.flatMap shown := by
  -- for the steps behind the first one, what this one shows has been drawn before
  induction as generalizing before with
  | nil =>
    rw [List.mapM_nil]
    exact .pure (List.append_nil _).symm
  | cons a as ih =>
    rw [List.mapM_cons]
    exact (hf a before).bind fun c => ih.bind fun cs => .pure (List.append_assoc ..)

end

/-! ## Requests -/

namespace Request

end Request

/-! ## Series of requests -/

end Residual.Build
