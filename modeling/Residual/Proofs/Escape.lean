/-
What residual code refers to. A binding that a scope has made is gone when the scope is closed, so
its name must not be left in what the scope gives back. Whatever a node evaluates to, its free names
are those of binders around the node, of definitions, or built in.
-/
import Residual.Proofs.Closing

namespace Residual

open Pass Node

/-- The results of evaluation are closed, if names may be missing. -/
theorem closing_eval : ∀ depth : Nat, Closing True (eval depth)
  | 0 => fun _ _ _ _ _ => returns_throw fun h => nomatch h
  | depth + 1 => fun _ _ _ henv hn =>
    (closing_eval depth).step (restores_eval depth) henv hn fun _ _ => .inr trivial

/-! ## The names of residual code -/

/-- The name is defined or built in. -/
def Env.IsGlobal (env : Env) (x : Name) : Prop :=
  (env.store.lookup x).isSome = true ∨ (Builtin.ofName? x).isSome = true

instance (env : Env) (x : Name) : Decidable (env.IsGlobal x) := inferInstanceAs (Decidable (_ ∨ _))

/-- A name that residual code may refer to: that of a binder around it, or one that is defined or
built in. -/
def Env.Offers (env : Env) (x : Name) : Prop :=
  (∃ b ∈ env.locals.bindings, b.residual = x) ∨ env.IsGlobal x

instance (env : Env) (x : Name) : Decidable (env.Offers x) := inferInstanceAs (Decidable (_ ∨ _))

/-- Residual code never refers to a binding that is gone. Let no placeholder occur in a node, in the
definitions or inside the values of local bindings, and let those refer to binders around the node,
definitions and built-in names only, the definitions to the latter two. Then so does what the node
evaluates to, whether names are resolved or kept. -/
theorem free_eval_offered {s t : Machine} {n v : Node} {depth : Nat}
    (hstore : ∀ {x d w}, s.env.store.lookup x = some (d, w) →
      w.isConcrete = true ∧ ∀ y ∈ w.free, s.env.IsGlobal y)
    (hlocals : ∀ b ∈ s.env.locals.bindings, b.value.isPlaceholder = true ∨
      b.value.isConcrete = true ∧ ∀ y ∈ b.value.free, s.env.Offers y)
    (hn : n.isConcrete = true) (heval : (eval depth n).runOn s = (.ok v, t)) :
    ∀ x ∈ v.free, s.env.Offers x := by
  have henv : s.env.Closes True s.env.Offers :=
    { defined := fun hx => ⟨.inr (.inl (by rw [hx]; rfl)),
        (hstore hx).1, fun y hy => .inr ((hstore hx).2 y hy)⟩
      builtin := fun hx => .inr (.inr (by rw [hx]; rfl))
      values := fun b hb hp => (hlocals b hb).resolve_left (by simp [hp])
      residuals := fun b hb _ => .inl ⟨b, hb, rfl⟩
      finds := fun _ _ => .inr (.inr trivial)
      mode := .inr trivial }
  have hclosed := (closing_eval depth).closed henv ⟨hn, fun _ _ => .inr (.inr trivial)⟩
  obtain ⟨hv, -⟩ := hclosed.of_run (fun _ _ _ => approximates_refl _) 0 rfl heval
  exact hv.2

/-- `k = 2` and `add = @p(Number) p + k`. -/
def addDefinitions : Definitions :=
  ⟨[("k", .lit ⟨0, .builtin⟩ (.number 2)),
    ("add", .func ⟨1, .builtin⟩ ⟨.builtin, "p", .ident ⟨2, .builtin⟩ "Number"⟩
      [.binOp ⟨3, .builtin⟩ .add (.ident ⟨4, .builtin⟩ "p") (.ident ⟨5, .builtin⟩ "k")])]⟩

/-- A number `a`, which is called `a#0` in residual code, and `b = a#0 + 1`. -/
def addLocals : Locals :=
  (Locals.empty.push
    ⟨"a", .selfType ⟨6, .builtin⟩ (.builtin ⟨7, .builtin⟩ .number), false, some "a#0"⟩).push
    ⟨"b", .binOp ⟨8, .builtin⟩ .add (.ident ⟨9, .builtin⟩ "a#0") (.lit ⟨10, .builtin⟩ (.number 1)),
      false, none⟩

/-- `{ z = add(b); @b(Number) z + b }` -/
def addProgram : Node :=
  .block ⟨11, .builtin⟩
    [.assign ⟨12, .builtin⟩ (.ident ⟨13, .builtin⟩ "z")
      (.call ⟨14, .builtin⟩ (.ident ⟨15, .builtin⟩ "add") (.ident ⟨16, .builtin⟩ "b")) false none,
    .func ⟨17, .builtin⟩ ⟨.builtin, "b", .ident ⟨18, .builtin⟩ "Number"⟩
      [.binOp ⟨19, .builtin⟩ .add (.ident ⟨20, .builtin⟩ "z") (.ident ⟨21, .builtin⟩ "b")]]

/-- Where names are resolved, this becomes `@b#0(Number) a#0 + 1 + 2 + b#0`, and where they are kept,
`{ z = add(b); @b#0(Number) z + b#0 }`. -/
theorem free_eval_add_offered :
    let start (resolve : Bool) : Machine :=
      ⟨{ Env.start addDefinitions .empty default with resolve, locals := addLocals }, ⟨30⟩⟩
    let Offered (resolve : Bool) (names : List Name) : Prop := ∃ v t,
      (eval 12 addProgram).runOn (start resolve) = (.ok v, t) ∧ v.free = names ∧
        ∀ x ∈ v.free, (start resolve).env.Offers x
    Offered true ["a#0"] ∧ Offered false ["add", "b"] := by
  intro start Offered
  have hstore (resolve : Bool) : ∀ entry ∈ addDefinitions.entries, entry.2.isConcrete = true ∧
      ∀ y ∈ entry.2.free, (start resolve).env.IsGlobal y := by
    cases resolve <;> decide +kernel
  have hlocals (resolve : Bool) : ∀ b ∈ (start resolve).env.locals.bindings,
      b.value.isPlaceholder = true ∨
        b.value.isConcrete = true ∧ ∀ y ∈ b.value.free, (start resolve).env.Offers y := by
    cases resolve <;> decide +kernel
  have hoffered (resolve : Bool) (names : List Name)
      (h : ((eval 12 addProgram).runOn (start resolve)).1.toOption.map Node.free = some names) :
      Offered resolve names := by
    cases hrun : (eval 12 addProgram).runOn (start resolve) with
    | mk r t =>
      rw [hrun] at h
      cases r with
      | error f => cases h
      | ok v =>
        refine ⟨v, t, hrun, Option.some.inj h, free_eval_offered (fun hx => ?_) (hlocals resolve)
          (by decide) hrun⟩
        obtain ⟨entry, hentry, rfl⟩ := Definitions.mem_of_lookup hx
        exact hstore resolve entry hentry
  exact ⟨hoffered true _ (by decide +kernel), hoffered false _ (by decide +kernel)⟩

/-- What stands after a dot, and a name that stands by itself in the body of an instance, is not
evaluated, so there the name of a binding that is gone may be left: `{ z = 1; a.(z + 1) }` becomes
`a.(z + 1)`, and `{ z = 1; struct { f: Number } { z } }` becomes `struct { f: Number } { z }`. -/
theorem eval_leaves_name :
    let block (n : Node) : Node := .block ⟨11, .builtin⟩
      [.assign ⟨12, .builtin⟩ (.ident ⟨13, .builtin⟩ "z") (.lit ⟨14, .builtin⟩ (.number 1)) false none,
        n]
    let access : Node := .binOp ⟨15, .builtin⟩ .dot (.ident ⟨16, .builtin⟩ "a")
      (.binOp ⟨17, .builtin⟩ .add (.ident ⟨18, .builtin⟩ "z") (.lit ⟨19, .builtin⟩ (.number 1)))
    let member : Node := .inst ⟨20, .builtin⟩ (.record ⟨21, .builtin⟩ "struct"
      [⟨.builtin, "f", .builtin ⟨22, .builtin⟩ .number⟩] none) [.ident ⟨23, .builtin⟩ "z"]
    let start : Machine := ⟨{ Env.start addDefinitions .empty default with locals := addLocals }, ⟨30⟩⟩
    ¬ start.env.Offers "z" ∧ (block access).isConcrete = true ∧ (block member).isConcrete = true ∧
      (∃ tag atag t, (eval 9 (block access)).runOn start =
        (.ok (.binOp tag .dot (.ident atag "a#0") (.binOp ⟨17, .builtin⟩ .add
          (.ident ⟨18, .builtin⟩ "z") (.lit ⟨19, .builtin⟩ (.number 1)))), t)) ∧
      ∃ tag template t, (eval 9 (block member)).runOn start =
        (.ok (.inst tag template [.ident ⟨23, .builtin⟩ "z"]), t) := by
  exact ⟨by decide, rfl, rfl, ⟨_, _, _, rfl⟩, ⟨_, _, _, rfl⟩⟩

end Residual
