/-
Local bindings. They are pushed and dropped at the inner end, and a scope is closed by going back to
the number of bindings that there were when it was opened. A name stands for its innermost binding.

The same few names are bound again at each level of a deep recursion. So what each level sees, the
innermost binding of each name, is kept beside the bindings, and a name is looked up there;
`find?_eq` says that it is found where it would be among all bindings.
-/
import Residual.Node.Basic

namespace Residual

/-- A local binding. -/
structure Binding where
  name : Name
  value : Node
  /-- Whether uses of the name stand for the value even where names are not resolved. -/
  transparent : Bool
  /-- The name of the binder in residual nodes, if it had to be renamed. -/
  rename : Option Name
  deriving Inhabited

namespace Binding

/-! ## Shadowing -/

/-- What is seen once `b` has been pushed: `b` hides a binding of the same name. -/
def shadow (b : Binding) (seen : List Binding) : List Binding :=
  b :: if seen.any (·.name == b.name) then seen.filter (·.name != b.name) else seen

/-- The innermost binding of each name. -/
def seenIn : List Binding → List Binding
  | [] => []
  | b :: bs => b.shadow (seenIn bs)

/-- What is seen at each level, the innermost first. The level outside all bindings sees none. -/
def levels : List Binding → List (List Binding)
  | [] => [[]]
  | b :: bs => seenIn (b :: bs) :: levels bs

theorem levels_eq_cons (bs : List Binding) : ∃ outer, levels bs = seenIn bs :: outer := by
  cases bs with
  | nil => exact ⟨[], rfl⟩
  | cons b bs => exact ⟨levels bs, rfl⟩

theorem drop_levels {bs : List Binding} {k : Nat} (h : k ≤ bs.length) :
    (levels bs).drop k = levels (bs.drop k) := by
  induction k generalizing bs with
  | zero => rfl
  | succ k ih =>
    cases bs with
    | nil => simp at h
    | cons b bs => exact ih (by simpa using h)

theorem find?_shadow (b : Binding) (seen : List Binding) (name : Name) :
    (b.shadow seen).find? (·.name == name) = (b :: seen).find? (·.name == name) := by
  unfold shadow
  split
  · by_cases hb : b.name = name
    · simp [hb]
    · have hne : (b.name == name) = false := by simpa using hb
      simp only [List.find?_cons, hne, List.find?_filter]
      congr 1
      funext c
      by_cases hc : c.name = name <;> simp [hc, Ne.symm hb]
  · rfl

/-- Hidden bindings are never found. -/
theorem find?_seenIn (bs : List Binding) (name : Name) :
    (seenIn bs).find? (·.name == name) = bs.find? (·.name == name) := by
  induction bs with
  | nil => rfl
  | cons b bs ih => rw [seenIn, find?_shadow, List.find?_cons, List.find?_cons, ih]

end Binding

/-! ## Locals -/

/-- Bindings, the innermost first, with their number and what is seen at each level. -/
structure Locals where
  bindings : List Binding
  size : Nat
  levels : List (List Binding)
  size_eq : size = bindings.length
  levels_eq : levels = Binding.levels bindings

namespace Locals

theorem eq_of_bindings_eq {a b : Locals} (h : a.bindings = b.bindings) : a = b := by
  cases a with
  | mk xs n ls hn hl =>
    cases b with
    | mk ys m ms hm hr =>
      subst hn hl hm hr
      cases h
      rfl

def empty : Locals := ⟨[], 0, [[]], rfl, rfl⟩

instance : Inhabited Locals := ⟨empty⟩

/-- The innermost binding of each name. -/
def seen (ls : Locals) : List Binding := ls.levels.headD []

theorem seen_eq (ls : Locals) : ls.seen = Binding.seenIn ls.bindings := by
  obtain ⟨outer, h⟩ := Binding.levels_eq_cons ls.bindings
  simp [seen, ls.levels_eq, h]

def push (ls : Locals) (b : Binding) : Locals where
  bindings := b :: ls.bindings
  size := ls.size + 1
  levels := b.shadow ls.seen :: ls.levels
  size_eq := by simp [ls.size_eq]
  levels_eq := by simp [ls.seen_eq, ls.levels_eq, Binding.levels, Binding.seenIn]

/-- Drops the innermost bindings until at most `n` are left. -/
def truncate (ls : Locals) (n : Nat) : Locals where
  bindings := ls.bindings.drop (ls.size - n)
  size := ls.size - (ls.size - n)
  levels := ls.levels.drop (ls.size - n)
  size_eq := by simp [ls.size_eq]
  levels_eq := by
    rw [ls.levels_eq, Binding.drop_levels (by have := ls.size_eq; omega)]

/-- The innermost binding, and the others. -/
def pop (ls : Locals) : Option Binding × Locals := (ls.bindings.head?, ls.truncate (ls.size - 1))

/-- The innermost binding of a name. -/
def find? (ls : Locals) (name : Name) : Option Binding := ls.seen.find? (·.name == name)

def contains (ls : Locals) (name : Name) : Bool := (ls.find? name).isSome

/-! ## Laws -/

theorem find?_eq (ls : Locals) (name : Name) :
    ls.find? name = ls.bindings.find? (·.name == name) := by
  rw [find?, seen_eq, Binding.find?_seenIn]

theorem contains_eq (ls : Locals) (name : Name) :
    ls.contains name = ls.bindings.any (·.name == name) := by
  rw [contains, find?_eq, Bool.eq_iff_iff, List.find?_isSome, List.any_eq_true]

@[simp] theorem bindings_push (ls : Locals) (b : Binding) :
    (ls.push b).bindings = b :: ls.bindings := rfl

@[simp] theorem size_push (ls : Locals) (b : Binding) : (ls.push b).size = ls.size + 1 := rfl

@[simp] theorem truncate_size (ls : Locals) : ls.truncate ls.size = ls :=
  eq_of_bindings_eq (by simp [truncate])

/-- A scope closes over what was pushed inside it. -/
theorem truncate_push {ls : Locals} {n : Nat} (b : Binding) (h : n ≤ ls.size) :
    (ls.push b).truncate n = ls.truncate n := by
  apply eq_of_bindings_eq
  have hs : ls.size + 1 - n = (ls.size - n) + 1 := by omega
  simp [truncate, hs]

end Locals

end Residual
