/-
The caller of a definition. A body is evaluated on top of the bindings of its caller, and its own
binders keep away from their names, so a caller may be noticed: by a binding of a name that the body
looks up, and by a binding of a name that the body binds. It is not noticed otherwise: the environments
of two callers agree on the names that the call uses.
-/
import Residual.Proofs.Agreement

namespace Residual

open Pass Node

/-- The names that a call of `f` may ask its caller for: the name of `f`, every name in the
definitions that it reaches, and the other names that a binder of these may get. -/
inductive Definitions.Uses (store : Definitions) (f : Name) : Name → Prop where
  | self : Uses store f f
  | mention {g x : Name} {d : DefId} {value : Node} (h : Uses store f g)
    (hg : store.lookup g = some (d, value)) (hx : x ∈ value.names) : Uses store f x
  | other {x : Name} (k : Nat) (h : Uses store f x) : Uses store f (Env.suffixed x k)

/-- The machine with other local bindings. -/
def Machine.withLocals (s : Machine) (ls : Locals) : Machine :=
  { s with env := { s.env with locals := ls } }

theorem agree_withLocals (s : Machine) {P : Name → Prop} {ls ls' : Locals}
    (h : ∀ x, P x → ls.contains x = false) (h' : ∀ x, P x → ls'.contains x = false)
    (hstore : ∀ x d v, P x → s.env.store.lookup x = some (d, v) → v.Within P) :
    (s.withLocals ls).env.Agree P (s.withLocals ls').env := by
  have hnone : ∀ {ls : Locals} {x : Name}, ls.contains x = false → ls.find? x = none :=
    fun h => by simpa [Locals.contains] using h
  exact {
    bound := fun x hx => (hnone (h x hx)).trans (hnone (h' x hx)).symm
    bound_within := fun x b hx hb => by
      rw [show (s.withLocals ls).env.locals.find? x = none from hnone (h x hx)] at hb
      cases hb
    defined := fun _ _ => rfl
    defined_within := hstore
    calls := rfl
    resolve := rfl
    transparent := rfl
    links := rfl }

/-- A call of a definition does not depend on the bindings of its caller, as long as these leave
alone the names that the call uses. -/
theorem call_ignores_caller (depth : Nat) (s : Machine) (ls ls' : Locals) (f : Name) (v : Literal)
    (tag nameTag argTag : Tag) (h : ∀ x, s.env.store.Uses f x → ls.contains x = false)
    (h' : ∀ x, s.env.store.Uses f x → ls'.contains x = false) :
    ((eval depth (.call tag (.ident nameTag f) (.lit argTag v))).runOn (s.withLocals ls)).1 =
      ((eval depth (.call tag (.ident nameTag f) (.lit argTag v))).runOn (s.withLocals ls')).1 := by
  have hn : (Node.call tag (.ident nameTag f) (.lit argTag v)).Within (s.env.store.Uses f) :=
    within_call.2 ⟨within_ident.2 .self, within_lit⟩
  have hagree := agree_withLocals s h h' fun _ _ _ hx hlookup _ hy => .mention hx hlookup hy
  obtain ⟨ho, -⟩ := agrees_eval (fun _ k hx => .other k hx) depth hn _ _ hagree rfl
  exact ho.eq

/-- A machine with the definitions `g = true` and `f = @x(Bool) g`. -/
def flagMachine : Machine where
  env := .start ⟨[("g", .lit ⟨0, .builtin⟩ (.bool true)),
    ("f", .func ⟨1, .builtin⟩ ⟨.builtin, "x", .ident ⟨2, .builtin⟩ "Bool"⟩
      [.ident ⟨3, .builtin⟩ "g"])]⟩ .empty default
  nodes := ⟨7⟩

/-- `f(true)` -/
def flagCall : Node :=
  .call ⟨4, .builtin⟩ (.ident ⟨5, .builtin⟩ "f") (.lit ⟨6, .builtin⟩ (.bool true))

/-- One binding, to the value `false`. -/
def bindFalse (name : Name) : Locals :=
  Locals.empty.push
    { name, value := .lit ⟨8, .builtin⟩ (.bool false), transparent := true, rename := none }

theorem uses_flagMachine {x : Name} (h : flagMachine.env.store.Uses "f" x) :
    x.toList.head? ∈ [some 'f', some 'g', some 'x', some 'B'] := by
  induction h with
  | self => decide
  | @mention g x d value _ hg hx _ =>
    have hx : x ∈ ["x", "Bool", "g"] := by
      by_cases h₁ : "g" = g
      · subst h₁
        cases hg
        cases hx
      · by_cases h₂ : "f" = g
        · subst h₂
          cases hg
          exact hx
        · simp [flagMachine, Env.start, Definitions.lookup, Definitions.find?, List.findIdx?_cons,
            h₁, h₂] at hg
    simp only [List.mem_cons, List.not_mem_nil, or_false] at hx
    obtain rfl | rfl | rfl := hx <;> decide
  | @other x k _ ih =>
    rw [Env.suffixed, String.toList_append, String.toList_append, List.append_assoc,
      List.head?_append]
    cases hhead : x.toList.head? with
    | none => simp [hhead] at ih
    | some c => rwa [hhead] at ih

/-- A binding of `y` leaves alone what `f(true)` uses. -/
theorem call_ignores_binding_of_y :
    ((eval 8 flagCall).runOn (flagMachine.withLocals .empty)).1 =
      ((eval 8 flagCall).runOn (flagMachine.withLocals (bindFalse "y"))).1 := by
  refine call_ignores_caller 8 flagMachine .empty (bindFalse "y") "f" _ _ _ _ (fun _ _ => rfl)
    fun x hx => ?_
  have := uses_flagMachine hx
  rw [Locals.contains_eq]
  by_cases h : x = "y"
  · subst h
    revert this
    decide
  · simp [bindFalse, Locals.empty, Ne.symm h]

/-- A binding of `g` does not: the body of `f` finds it in place of the definition. -/
theorem call_sees_caller :
    flagMachine.env.resolve = true ∧ (bindFalse "g").contains "f" = false ∧
    ((eval 8 flagCall).runOn (flagMachine.withLocals .empty)).1 =
      .ok (.lit ⟨0, .builtin⟩ (.bool true)) ∧
    ((eval 8 flagCall).runOn (flagMachine.withLocals (bindFalse "g"))).1 =
      .ok (.lit ⟨8, .builtin⟩ (.bool false)) :=
  ⟨rfl, rfl, rfl, rfl⟩

end Residual
