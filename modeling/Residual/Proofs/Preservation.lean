/-
Type preservation for first-order programs. A program that passes the checker is well typed, what it
evaluates to is well typed again, in either mode, and so passes the checker with a compatible type.

Functions are told apart by their identities, and the checker takes a function that it meets inside
itself to be void. So what is said of a run includes its counter of identities: a function that
evaluation makes is newer than all that it holds.
-/
import Residual.Proofs.Keeping
import Residual.Proofs.Typing

namespace Residual

namespace FirstOrder

open Pass

variable {store : Definitions} {p : NodeId → Prop} {Γ : List (Name × Builtin)} {env : Env}

/-! ## Environments of programs -/

/-- A binding of a program: of a parameter only the type is known; the value of an alias is known
where names are resolved. -/
structure Offers (store : Definitions) (resolve : Bool) (Γ : List (Name × Builtin)) (a : Builtin)
    (b : Binding) : Prop where
  transparent : b.transparent = false
  rename : b.rename = none
  value : b.value.isPlaceholder = true ∨ (resolve = true → Typed store .residual Γ b.value a)

theorem Offers.weaken {r : Bool} {a : Builtin} {b : Binding} (h : Offers store r Γ a b) {x : Name}
    (c : Builtin) (hx : Γ.lookup x = none) : Offers store r ((x, c) :: Γ) a b where
  transparent := h.transparent
  rename := h.rename
  value := h.value.imp_right fun hv hr => (hv hr).weaken rfl fun _ _ => lookup_cons_of_some c hx

/-- The names in scope are those that are bound, as a program binds them. -/
structure BindsProgram (store : Definitions) (p : NodeId → Prop) (Γ : List (Name × Builtin))
    (env : Env) : Prop extends env.Over store where
  calls : Avoids p env
  transparent : env.transparent = false
  vars : Binds (Offers store env.resolve Γ) Γ env
  others : Covers Γ env

namespace BindsProgram

theorem interprets (h : BindsProgram store p Γ env) (hr : env.resolve = true) :
    Interprets store p Γ Γ env where
  toOver := h.toOver
  resolve := hr
  calls := h.calls
  vars x a hx := by
    obtain ⟨b, hfind, hb⟩ := h.vars x a hx
    refine ⟨b, hfind, ?_⟩
    rcases hb.value with hunknown | hknown
    · exact .unknown hunknown hb.rename (by rw [Locals.name_of_find? hfind]; exact hx)
    · exact .known (hknown hr)

theorem keeps (h : BindsProgram store p Γ env) (hr : env.resolve = false) : Keeps store Γ env where
  toOver := h.toOver
  resolve := hr
  transparent := h.transparent
  vars x a hx := by
    obtain ⟨b, hfind, hb⟩ := h.vars x a hx
    exact ⟨b, hfind, hb.transparent, hb.rename⟩
  others := h.others

theorem enterCall (h : BindsProgram store p Γ env) (n : Node) :
    BindsProgram store (fun i => p i ∧ i ≠ n.id) Γ (env.enterCall n) where
  store_eq := h.store_eq
  names := h.names
  calls := h.calls.enterCall n
  transparent := h.transparent
  vars := h.vars
  others := h.others

/-- A new name is bound. -/
theorem push (h : BindsProgram store p Γ env) {x : Name} {v : Node} {a : Builtin}
    (hx : Γ.lookup x = none) (hfree : store.IsFree x)
    (hv : v.isPlaceholder = true ∨ (env.resolve = true → Typed store .residual Γ v a)) :
    BindsProgram store p ((x, a) :: Γ) (env.push ⟨x, v, false, none⟩) where
  toOver := h.toOver.push hfree
  calls := h.calls
  transparent := h.transparent
  vars := by
    have hvars : Binds (Offers store env.resolve ((x, a) :: Γ)) Γ env := fun y c hy => by
      obtain ⟨b, hfind, hb⟩ := h.vars y c hy
      exact ⟨b, hfind, hb.weaken a hx⟩
    have hb : Offers store env.resolve Γ a ⟨x, v, false, none⟩ := ⟨rfl, rfl, hv⟩
    exact hvars.push (hb.weaken a hx)
  others := h.others.push a ⟨x, v, false, none⟩

end BindsProgram

/-! ## Steps of programs -/

/-- What source code becomes: residual code where names are resolved, and source code elsewhere. -/
def Stage.after (p : NodeId → Prop) : (resolve : Bool) → Stage
  | true => .residual
  | false => .source p

theorem Code.ofAfter {r : Bool} {e : Node} {a : Builtin} (h : Typed store (.after p r) Γ e a) :
    Typed store (.source p) Γ e a := by
  cases r with
  | true => exact h.weaken rfl fun _ _ hx => hx
  | false => exact h

variable {d : Nat} {s t : Machine} {v : Node}

/-- Code evaluates to code of its type. -/
theorem Code.evaluates {e : Node} {a : Builtin} (h : Typed store (.source p) Γ e a)
    (hs : BindsProgram store p Γ s.env) (hrun : (eval d e).runOn s = (.ok v, t)) :
    Typed store (.after p s.env.resolve) Γ v a ∧ t.env = s.env := by
  cases hr : s.env.resolve with
  | true =>
    exact (h.returns (F := AnyFault) rfl (hs.interprets hr)).of_run
      (fun _ _ hle => approximates_eval hle e) d rfl hrun
  | false =>
    exact (h.keeps (hs.keeps hr) d).of_run (m := fun _ => eval d e)
      (fun _ _ _ => approximates_refl _) 0 rfl hrun

/-- A function is evaluated under its binder, and then gets its identity. -/
theorem evalFunc_ok {tag : Tag} {param : Decl Node} {body : List Node} {b : Builtin}
    (hrun : (Eval.evalFunc (eval d) tag param body).runOn s = (.ok v, t)) (hs : s.env.Over store)
    (hty : store.Declares param.ty b) (hfind : s.env.locals.find? param.name = none)
    (hfree : store.IsFree param.name) :
    ∃ (u u' : Tag) (body' : List Node) (s' t' : Machine),
      (body.mapM fun item => do Eval.bindLocal (← eval d item)).runOn s' = (.ok body', t') ∧
      s'.env = (s.env.enterCall (.func tag param body)).push
        ⟨param.name, .selfType u' (.builtin u b), false, none⟩ ∧ s.nodes.next ≤ s'.nodes.next ∧
      v = .func ⟨t'.nodes.next, tag.span⟩ { param with ty := .builtin u b } body' ∧
      t.nodes.next = t'.nodes.next + 1 := by
  unfold Eval.evalFunc at hrun
  obtain ⟨ty, s₁, hty', hrun⟩ := runOn_bind_ok hrun
  have hrestores := Eval.restores_evalType (restores_eval d) param.ty
  have henv : s₁.env = s.env := hrestores.env_eq hty'
  have hnext : s.nodes.next ≤ s₁.nodes.next := hrestores.next_le hty'
  obtain ⟨s₁', hty', -⟩ := runOn_under_ok hty'
  have hover : (Guard.enter (.resolve true) s.env).Over store := ⟨hs.store_eq, hs.names⟩
  obtain ⟨⟨u, rfl⟩, -⟩ := (returns_declared (F := AnyFault) hover rfl hty).of_run
    (fun _ _ hle => approximates_eval hle param.ty) d rfl hty'
  obtain ⟨placeholderTag, s₂, htag, hrun⟩ := runOn_bind_ok hrun
  cases htag
  obtain ⟨env, s₃, henv', hrun⟩ := runOn_bind_ok hrun
  cases henv'
  obtain ⟨body', s₄, hbody, hrun⟩ := runOn_bind_ok hrun
  have hfresh : s₁.env.freshName param.name = none := by
    rw [henv]
    exact hs.freshName_eq_none hfree hfind
  simp only [hfresh] at hbody hrun
  cases hrun
  obtain ⟨s₅, hbody, hnodes⟩ := runOn_under_ok hbody
  obtain ⟨s₆, hbody, hnodes'⟩ := runOn_under_ok hbody
  obtain ⟨s₇, hbody, hnodes''⟩ := runOn_under_ok hbody
  have hlast : s₇.nodes = s₄.nodes := hnodes''.trans (hnodes'.trans hnodes)
  refine ⟨u, ⟨s₁.nodes.next, param.span⟩, body', _, s₇, hbody, ?_, Nat.le_succ_of_le hnext,
    hlast ▸ rfl, hlast ▸ rfl⟩
  show (s₁.env.enterCall (.func tag param body)).push
    ⟨param.name, .selfType ⟨s₁.nodes.next, param.span⟩ (.builtin u b), false, none⟩ = _
  rw [henv]

/-- An alias whose name is new stays, and binds its name to its value. -/
theorem bindAlias_ok {tag xtag : Tag} {x : Name} {e w : Node} {link : Option DefId}
    (hrun : (do Eval.bindLocal (← eval d (.assign tag (.ident xtag x) e false link))).runOn s =
      (.ok w, t)) (hs : BindsProgram store p Γ s.env) (hx : Γ.lookup x = none) (hfree : store.IsFree x) :
    ∃ (k : Nat) (v : Node) (s' : Machine) (u : Tag) (link' : Option DefId),
      (eval k e).runOn s = (.ok v, s') ∧ w = .assign u (.ident xtag x) v false link' ∧
      t.env = s.env.push ⟨x, v, false, none⟩ ∧ s'.nodes.next ≤ t.nodes.next := by
  obtain ⟨item, s₁, hassign, hbind⟩ := runOn_bind_ok hrun
  cases d with
  | zero => cases hassign
  | succ k =>
    have henv := (restores_eval (k + 1) _).env_eq hassign
    obtain ⟨v, s₂, hvalue, hassign⟩ := runOn_bind_ok hassign
    cases hassign
    have hfresh : s₂.env.freshName x = none := by
      rw [henv]
      exact hs.toOver.freshName_eq_none hfree (hs.others x hx)
    have htransparent : (false || s₂.env.transparent) = false := by
      rw [henv]
      exact hs.transparent
    unfold Eval.bindLocal at hbind
    obtain ⟨env, s₃, henv', hbind⟩ := runOn_bind_ok hbind
    cases henv'
    obtain ⟨_, s₄, hpush, hbind⟩ := runOn_bind_ok hbind
    cases hpush
    simp only [hfresh, htransparent] at hbind
    cases hbind
    exact ⟨k, v, s₂, _, _, hvalue, rfl, congrArg (Env.push · _) henv, Nat.le_succ _⟩

theorem next_le_items {items vs : List Node}
    (hrun : (items.mapM fun item => do Eval.bindLocal (← eval d item)).runOn s = (.ok vs, t)) :
    s.nodes.next ≤ t.nodes.next := by
  have hopens := Opens.mapM
    (fun item => (restores_eval d item).opens.bind fun w => Eval.opens_bindLocal w) items s
  rw [hrun] at hopens
  exact hopens.2

/-! ## Programs -/

mutual

/-- A well-typed program evaluates to a well-typed program of its type. -/
theorem Program.evaluates : ∀ {p : NodeId → Prop} {Γ : List (Name × Builtin)} {n : Node}
    {σ : Shape Builtin}, Program (fun b => b) store p Γ n σ →
    ∀ {d : Nat} {s t : Machine} {v : Node}, BindsProgram store p Γ s.env →
    (∀ i, p i → i < s.nodes.next) → (eval d n).runOn s = (.ok v, t) →
    Program (fun b => b) store (· < t.nodes.next) Γ v σ
  | _, _, _, _, .code h, _, _, _, _, hs, hp, hrun => by
    have hv := (h.evaluates hs hrun).1.ofAfter
    have hnext := (restores_eval _ _).next_le hrun
    exact (Program.code hv).mono fun i hi => Nat.lt_of_lt_of_le (hp i hi) hnext
  | _, _, _, _, .func .., 0, _, _, _, _, _, hrun => by cases hrun
  | p, Γ, _, _, @Program.func _ _ _ _ _ param body b _ tag _ hty hx hfree hbody, d + 1, _, _, _,
      hs, hp, hrun => by
    obtain ⟨u, u', body', s', t', hrun', henv, hnext, rfl, hlast⟩ :=
      evalFunc_ok hrun hs.toOver hty (hs.others _ hx) hfree
    have hs' : BindsProgram store (fun i => p i ∧ i ≠ tag.id) ((param.name, b) :: Γ) s'.env :=
      henv ▸ (hs.enterCall (.func tag param body)).push hx hfree (.inl rfl)
    have hbody' := hbody.evaluates hs' (fun i hi => Nat.lt_of_lt_of_le (hp i hi.1) hnext) hrun'
    refine .func _ (hlast ▸ Nat.lt_succ_self _) (.builtin u hty.isData) hx hfree
      (hbody'.mono fun i hi => ⟨?_, Nat.ne_of_lt hi⟩)
    exact hlast ▸ Nat.lt_succ_of_lt hi

theorem Body.evaluates : ∀ {p : NodeId → Prop} {Γ : List (Name × Builtin)} {items : List Node}
    {σ : Shape Builtin}, Body (fun b => b) store p Γ items σ →
    ∀ {d : Nat} {s t : Machine} {vs : List Node}, BindsProgram store p Γ s.env →
    (∀ i, p i → i < s.nodes.next) →
    (items.mapM fun item => do Eval.bindLocal (← eval d item)).runOn s = (.ok vs, t) →
    Body (fun b => b) store (· < t.nodes.next) Γ vs σ
  | _, _, _, _, .last h, _, _, _, _, hs, hp, hrun => by
    simp only [List.mapM_cons, List.mapM_nil] at hrun
    obtain ⟨v, s₁, hv, hrun⟩ := runOn_bind_ok hrun
    obtain ⟨w, s₂, hw, hv⟩ := runOn_bind_ok hv
    cases hrun
    have hprogram := h.evaluates hs hp hw
    rw [Eval.bindLocal_of_not_isAlias hprogram.isAlias] at hv
    obtain ⟨rfl, rfl⟩ := runOn_pure_ok hv
    exact .last hprogram
  | _, _, _, _, .expr h hrest, d, s, t, _, hs, hp, hrun => by
    simp only [List.mapM_cons] at hrun
    obtain ⟨v, s₁, hv, hrun⟩ := runOn_bind_ok hrun
    obtain ⟨w, s₂, hw, hv⟩ := runOn_bind_ok hv
    obtain ⟨vs, s₃, hvs, hrun⟩ := runOn_bind_ok hrun
    cases hrun
    obtain ⟨hcode, henv⟩ := h.evaluates hs hw
    rw [Eval.bindLocal_of_not_isAlias hcode.isAlias] at hv
    obtain ⟨rfl, rfl⟩ := runOn_pure_ok hv
    have hnext := (restores_eval _ _).next_le hw
    have hrest' := hrest.evaluates (henv ▸ hs) (fun i hi => Nat.lt_of_lt_of_le (hp i hi) hnext) hvs
    refine .expr (hcode.ofAfter.mono rfl fun i hi => ?_) hrest'
    exact Nat.lt_of_lt_of_le (hp i hi) (Nat.le_trans hnext (next_le_items hvs))
  | _, _, _, _, .bind tag xtag h hx hfree hrest, _, _, _, _, hs, hp, hrun => by
    simp only [List.mapM_cons] at hrun
    obtain ⟨w, s₁, hw, hrun⟩ := runOn_bind_ok hrun
    obtain ⟨vs, s₃, hvs, hrun⟩ := runOn_bind_ok hrun
    cases hrun
    obtain ⟨k, v, s₂, u, link', hv, rfl, henv, hle⟩ := bindAlias_ok hw hs hx hfree
    obtain ⟨hcode, -⟩ := h.evaluates hs hv
    have hnext := Nat.le_trans ((restores_eval _ _).next_le hv) hle
    have hs₁ := hs.push hx hfree (.inr fun hr => by rw [hr] at hcode; exact hcode)
    have hrest' := hrest.evaluates (henv ▸ hs₁)
      (fun i hi => Nat.lt_of_lt_of_le (hp i hi) hnext) hvs
    refine .bind u xtag (hcode.ofAfter.mono rfl fun i hi => ?_) hx hfree hrest'
    exact Nat.lt_of_lt_of_le (hp i hi) (Nat.le_trans hnext (next_le_items hvs))

end

end FirstOrder

/-! ## Type preservation -/

open Pass Residual.FirstOrder

/-- An environment over definitions in which nothing is bound and nothing is being called. -/
structure Env.IsFresh (store : Definitions) (env : Env) : Prop where
  store_eq : env.store = store
  locals : env.locals = .empty
  calls : env.calls = .empty
  transparent : env.transparent = false

namespace Env.IsFresh

variable {store : Definitions} {env : Env}

theorem isOver (h : env.IsFresh store) : env.Over store where
  store_eq := h.store_eq
  names b hb := by
    rw [h.locals] at hb
    cases hb

theorem resolve (h : env.IsFresh store) (r : Bool) : { env with resolve := r }.IsFresh store :=
  ⟨h.store_eq, h.locals, h.calls, h.transparent⟩

theorem find?_eq_none (h : env.IsFresh store) (x : Name) : env.locals.find? x = none := by
  rw [h.locals]
  rfl

theorem isOnStack (h : env.IsFresh store) (n : Node) : env.isOnStack n = false := by
  rw [Env.isOnStack, h.calls]
  rfl

theorem checks (h : env.IsFresh store) (p : NodeId → Prop) : Checks store p [] env where
  toOver := h.isOver
  calls n hn := by
    rw [h.isOnStack n] at hn
    cases hn
  vars := .nil
  others x _ := h.find?_eq_none x

theorem bindsProgram (h : env.IsFresh store) (p : NodeId → Prop) : BindsProgram store p [] env where
  toOver := h.isOver
  calls n hn := by
    rw [h.isOnStack n] at hn
    cases hn
  transparent := h.transparent
  vars := .nil
  others x _ := h.find?_eq_none x

end Env.IsFresh

/-- A first-order program over definitions, with identities below a bound. -/
def Node.IsFirstOrder (store : Definitions) (bound : NodeId) (n : Node) : Prop :=
  ∃ σ, FirstOrder.Program (fun _ => ()) store (· < bound) [] n σ

/-- A machine passes a node with a type that is compatible with a given one, at all depths from some
one on. -/
def Machine.PassesAs (s : Machine) (v ty : Node) : Prop :=
  ∃ ty' t, (∃ depth, ∀ d ≥ depth, (check d v).runOn s = (.ok ty', t)) ∧ compatible ty ty' = true

/-- If a first-order program passes the checker, and evaluates to a value, in either mode, then the
value passes the checker with a compatible type. -/
theorem Node.IsFirstOrder.preserves {store : Definitions} {n v ty : Node} {s₁ s₂ s₃ t₁ t₂ : Machine}
    {depth₁ depth₂ : Nat} (h₁ : s₁.env.IsFresh store) (h₂ : s₂.env.IsFresh store)
    (h₃ : s₃.env.IsFresh store) (hn : n.IsFirstOrder store s₂.nodes.next)
    (hcheck : (check depth₁ n).runOn s₁ = (.ok ty, t₁))
    (heval : (eval depth₂ n).runOn s₂ = (.ok v, t₂)) :
    s₃.PassesAs v ty := by
  obtain ⟨σ, hn⟩ := hn
  obtain ⟨⟨σ', hty, htyped⟩, -⟩ := (hn.typed (h₁.checks _)).of_run
    (fun _ _ hle => approximates_check hle n) depth₁ rfl hcheck
  have hv := htyped.evaluates (h₂.bindsProgram _) (fun _ hi => hi) heval
  obtain ⟨r, t₃, hends, depth, hrun⟩ := hv.passes (h₃.checks _) s₃ rfl
  cases r with
  | error e => exact hends.elim
  | ok ty' => exact ⟨ty', t₃, ⟨depth, hrun⟩, hty.compatible hends.1⟩

/-- A fresh machine over definitions, in the given mode. -/
def freshMachine (store : Definitions) (resolve : Bool) : Machine :=
  ⟨{ Env.start store .empty default with resolve }, ⟨30⟩⟩

theorem isFresh_freshMachine (store : Definitions) (resolve : Bool) :
    (freshMachine store resolve).env.IsFresh store := ⟨rfl, rfl, rfl, rfl⟩

end Residual
