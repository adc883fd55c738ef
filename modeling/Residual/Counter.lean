/-
A counter hands out the numbers 0, 1, 2, … once each. Locations, type names and node identities
are drawn from counters, so that two things drawn from the same counter are never confused.
-/
namespace Residual

/-- A counter; `next` is the first number that has not been handed out. -/
structure Counter where
  next : Nat
  deriving Repr, DecidableEq, Inhabited

namespace Counter

/-- A counter that has handed out nothing. -/
def start : Counter := ⟨0⟩

/-- The next number, and the counter after it. -/
def alloc (c : Counter) : Nat × Counter := (c.next, ⟨c.next + 1⟩)

/-- The next `k` numbers in order, and the counter after them. -/
def take (c : Counter) (k : Nat) : List Nat × Counter :=
  (List.range' c.next k, ⟨c.next + k⟩)

/-- A name made of `stem` and the next number. -/
def name (c : Counter) (stem : String) : String × Counter :=
  (stem ++ "#" ++ toString c.next, ⟨c.next + 1⟩)

@[simp] theorem alloc_fst (c : Counter) : c.alloc.1 = c.next := rfl

@[simp] theorem alloc_snd_next (c : Counter) : c.alloc.2.next = c.next + 1 := rfl

@[simp] theorem name_snd (c : Counter) (stem : String) : (c.name stem).2 = c.alloc.2 := rfl

@[simp] theorem take_snd_next (c : Counter) (k : Nat) : (c.take k).2.next = c.next + k := rfl

end Counter

end Residual
