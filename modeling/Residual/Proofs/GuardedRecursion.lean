/-
Guarded recursion. Functions are defined at the top level and may call themselves and each other. While
a function is being checked its calls are void, and the type of a branch is told by the arms that are
not. So calls of functions that may be met again stand in arms of branches of which another arm has a
type, and the branches hang on the parameter, so that evaluation does not decide them: what is left of a
call then has a type of its own again.

Functions have ranks. Code of a rank calls functions of lower ranks freely; those of its own rank, where
it may be void only. The nodes that are being looked into are of its rank at least. A function that is
met again is not entered, so each step into a function leaves one definition less to enter.
-/
import Residual.Proofs.CheckRules
import Residual.Proofs.Preservation

namespace Residual

namespace GuardedRecursion

open Pass Residual.FirstOrder

/-! ## Code -/

/-- What is known of the functions that are defined, and the types of the names of parameters. -/
structure Grading where
  store : Definitions
  var : Name → Builtin
  /-- The functions that may be called. -/
  callable : Name → Prop
  rank : Name → Nat
  /-- The functions whose branches may hang on their parameters: their arguments are not known. -/
  strict : Name → Prop
  result : Name → Builtin

/-- An expression that is not decided if the names are unknown. -/
inductive Hangs (H : Name → Prop) : Node → Prop where
  | var {x : Name} (tag : Tag) (h : H x) : Hangs H (.ident tag x)
  | lhs {a : Node} (tag : Tag) (op : Operator) (b : Node) (h : Hangs H a) : Hangs H (.binOp tag op a b)
  | rhs {b : Node} (tag : Tag) (op : Operator) (a : Node) (h : Hangs H b) : Hangs H (.binOp tag op a b)

/-- Code of a type and a rank, over the names in scope, of which some are unknown. The flag tells
whether it may be void. -/
inductive Graded (ρ : Grading) (Γ : List (Name × Builtin)) (H : Name → Prop) :
    Bool → Nat → Node → Builtin → Prop where
  | plain {loose : Bool} {r : Nat} {n : Node} {a : Builtin} (h : Typed ρ.store .residual Γ n a) :
    Graded ρ Γ H loose r n a
  | binOp {loose : Bool} {r : Nat} {op : Operator} {lhs rhs : Node} (tag : Tag) (hop : op ≠ .dot)
    (hl : Graded ρ Γ H loose r lhs .number) (hr : Graded ρ Γ H loose r rhs .number) :
    Graded ρ Γ H loose r (.binOp tag op lhs rhs) (if op.isArithmetic then .number else .bool)
  | ifElse {loose loose₁ loose₂ : Bool} {r : Nat} {c e e' : Node} {a : Builtin} (tag : Tag)
    (hc : Graded ρ Γ H loose r c .bool) (ht : Graded ρ Γ H loose₁ r e a)
    (he : Graded ρ Γ H loose₂ r e' a) (harms : loose₁ = false ∨ loose₂ = false)
    (hguard : loose = true ∨ loose₁ = false ∧ loose₂ = false ∨
      Typed ρ.store .residual Γ c .bool ∧ Hangs H c) :
    Graded ρ Γ H loose r (.ifElse tag c [e] [e']) a
  | call {loose : Bool} {r : Nat} {g : Name} {d : DefId} {t : Tag} {param : Decl Node}
    {body : List Node} {arg : Node} (tag gtag : Tag) (hcallable : ρ.callable g)
    (hg : ρ.store.lookup g = some (d, .func t param body))
    (harg : Typed ρ.store .residual Γ arg (ρ.var param.name))
    (hhangs : ρ.strict g ∨ r ≤ ρ.rank g → Hangs H arg) (hrank : ρ.rank g ≤ r)
    (hlower : loose = false → ρ.rank g < r) :
    Graded ρ Γ H loose r (.call tag (.ident gtag g) arg) (ρ.result g)

/-- The functions are of their ranks, and told apart by their identities as far as their ranks are. -/
structure Grading.IsSound (ρ : Grading) : Prop where
  body : ∀ {g d t param body}, ρ.callable g → ρ.store.lookup g = some (d, .func t param body) →
    ρ.store.Declares param.ty (ρ.var param.name) ∧ ρ.store.IsFree param.name ∧ ∃ e, body = [e] ∧
      Graded ρ [(param.name, ρ.var param.name)] (fun x => ρ.strict g ∧ x = param.name) false (ρ.rank g)
        e (ρ.result g)
  rank_eq : ∀ {g g' d d' f f'}, ρ.callable g → ρ.callable g' → ρ.store.lookup g = some (d, f) →
    ρ.store.lookup g' = some (d', f') → f.id = f'.id → ρ.rank g = ρ.rank g'

variable {ρ : Grading} {Γ Δ : List (Name × Builtin)} {H : Name → Prop} {loose : Bool} {r : Nat}
variable {n v : Node} {a : Builtin} {env : Env} {F : Fault → Prop}

namespace Hangs

theorem isStatic (h : Hangs H n) : n.isStatic = false := by cases h <;> rfl

theorem number? (h : Hangs H n) : n.number? = none := by cases h <;> rfl

theorem bool? (h : Hangs H n) : n.bool? = none := by cases h <;> rfl

end Hangs

namespace Graded

theorem isAlias (h : Graded ρ Γ H loose r n a) : n.isAlias = false := by
  cases h with
  | plain h => exact h.isAlias
  | _ => rfl

theorem boundName? (h : Graded ρ Γ H loose r n a) : n.boundName? = none := by
  cases h with
  | plain h => exact h.boundName?
  | _ => rfl

/-- Code that has a type of its own may stand where it need not. -/
theorem loosen (h : Graded ρ Γ H false r n a) : Graded ρ Γ H loose r n a := by
  generalize hfalse : false = held at h
  induction h with
  | plain h => exact .plain h
  | binOp tag hop _ _ ihl ihr => exact .binOp tag hop (ihl hfalse) (ihr hfalse)
  | ifElse tag _ ht he harms hguard ihc _ _ =>
    refine .ifElse tag (ihc hfalse) ht he harms (.inr (hguard.resolve_left ?_))
    rw [← hfalse]
    decide
  | call tag gtag hcallable hg harg hhangs hrank hlower =>
    exact .call tag gtag hcallable hg harg hhangs hrank fun _ => hlower hfalse.symm

/-- Code of a rank may stand in code of a higher one. -/
theorem raise {r' : Nat} (h : Graded ρ Γ H loose r n a) (hr : r ≤ r') :
    Graded ρ Γ H loose r' n a := by
  induction h with
  | plain h => exact .plain h
  | binOp tag hop _ _ ihl ihr => exact .binOp tag hop (ihl hr) (ihr hr)
  | ifElse tag _ _ _ harms hguard ihc iht ihe =>
    exact .ifElse tag (ihc hr) (iht hr) (ihe hr) harms hguard
  | call tag gtag hcallable hg harg hhangs hrank hlower =>
    exact .call tag gtag hcallable hg harg (fun h => hhangs (h.imp_right (Nat.le_trans hr)))
      (Nat.le_trans hrank hr) fun hheld => Nat.lt_of_lt_of_le (hlower hheld) hr

/-- More names may be in scope. -/
theorem weaken (h : Graded ρ Γ H loose r n a)
    (hΓ : ∀ x a, Γ.lookup x = some a → Δ.lookup x = some a) : Graded ρ Δ H loose r n a := by
  induction h with
  | plain h => exact .plain (h.weaken rfl hΓ)
  | binOp tag hop _ _ ihl ihr => exact .binOp tag hop ihl ihr
  | ifElse tag _ _ _ harms hguard ihc iht ihe =>
    exact .ifElse tag ihc iht ihe harms
      (hguard.imp_right (.imp_right fun ⟨hc, hhangs⟩ => ⟨hc.weaken rfl hΓ, hhangs⟩))
  | call tag gtag hcallable hg harg hhangs hrank hlower =>
    exact .call tag gtag hcallable hg (harg.weaken rfl hΓ) hhangs hrank hlower

end Graded

/-! ## Environments -/

/-- The functions that are being looked into are of a rank at least. -/
def IsAbove (ρ : Grading) (r : Nat) (env : Env) : Prop :=
  ∀ {g d f}, ρ.callable g → ρ.store.lookup g = some (d, f) → env.isOnStack f = true → r ≤ ρ.rank g

theorem IsAbove.enterCall (h : IsAbove ρ r env) (hρ : ρ.IsSound) {g : Name} {d : DefId} {f : Node}
    (hcallable : ρ.callable g) (hg : ρ.store.lookup g = some (d, f)) (hrank : ρ.rank g ≤ r) :
    IsAbove ρ (ρ.rank g) (env.enterCall f) := by
  intro g' d' f' hcallable' hg' hon
  rcases Env.isOnStack_enterCall hon with hid | hon
  · exact Nat.le_of_eq (hρ.rank_eq hcallable hcallable' hg hg' hid.symm)
  · exact Nat.le_trans hrank (h hcallable' hg' hon)

/-- The names of a scope. -/
def InScope (Δ : List (Name × Builtin)) (x : Name) : Prop := (Δ.lookup x).isSome = true

/-- An environment for code over `Γ`, which becomes code over `Δ`. The names of `H` are unknown. -/
structure Feeds (ρ : Grading) (Δ Γ : List (Name × Builtin)) (H : Name → Prop) (env : Env) : Prop
    extends Interprets ρ.store Nobody Δ Γ env where
  hangs : ∀ x b, H x → env.locals.find? x = some b →
    b.value.isPlaceholder = true ∨ Hangs (InScope Δ) b.value

/-- Of names that stand for their types, evaluation knows the types only. -/
theorem feeds_of_checks {p : NodeId → Prop} (h : Checks ρ.store p Γ env)
    (hH : ∀ x, H x → InScope Γ x) : Feeds ρ Γ Γ H { env with resolve := true } where
  toInterprets := (h.mono fun _ hi => hi.elim).interprets
  hangs x b hx hfind := by
    obtain ⟨a, ha⟩ := Option.isSome_iff_exists.1 (hH x hx)
    obtain ⟨c, hfind', ⟨t, ty, hvalue, -⟩, -⟩ := h.vars x a ha
    rw [show env.locals.find? x = some b from hfind] at hfind'
    cases hfind'
    exact .inl (by rw [hvalue]; rfl)

/-! ## Evaluation -/

theorem returns_plain (h : Typed ρ.store .residual Γ n a) (henv : Feeds ρ Δ Γ H env) :
    Returns env (fun d => eval d n) F (Typed ρ.store .residual Δ · a) :=
  Code.returns (h.weaken rfl fun _ _ hx => hx) rfl henv.toInterprets

section

variable (ev : Nat → Node → Pass Node) {op : Operator} {lhs rhs : Node} {Q : Node → Prop}

theorem returns_hangs_lhs (tag : Tag) (hop : op ≠ .dot)
    (hl : Returns env (fun d => ev d lhs) F (Hangs H)) (hr : Returns env (fun d => ev d rhs) F Q) :
    Returns env (fun d => Eval.evalBinOp (ev d) tag op lhs rhs) F (Hangs H) := by
  refine Eval.returns_evalBinOp tag hop hl hr (fun u w x y l t hu _ hx _ _ => ?_)
    fun u w t hu _ _ => .lhs t op w hu
  rw [hu.number?] at hx
  cases hx

theorem returns_hangs_rhs (tag : Tag) (hop : op ≠ .dot) (hl : Returns env (fun d => ev d lhs) F Q)
    (hr : Returns env (fun d => ev d rhs) F (Hangs H)) :
    Returns env (fun d => Eval.evalBinOp (ev d) tag op lhs rhs) F (Hangs H) := by
  refine Eval.returns_evalBinOp tag hop hl hr (fun u w x y l t _ hw _ hy _ => ?_)
    fun u w t _ hw _ => .rhs t op u hw
  rw [hw.number?] at hy
  cases hy

end

/-- What hangs on names that are unknown stays undecided. -/
theorem returns_hanging (hhangs : Hangs H n) (henv : Feeds ρ Δ Γ H env) :
    ∀ {a : Builtin}, Typed ρ.store .residual Γ n a →
    Returns env (fun d => eval d n) F fun v => Hangs (InScope Δ) v := by
  induction hhangs with
  | @var x tag hx =>
    intro a h
    refine Returns.succ ?_
    cases h with
    | var _ hΓ =>
      obtain ⟨b, hfind, hb⟩ := henv.vars x _ hΓ
      refine Eval.returns_evalFound tag (Env.lookup_bound hfind) (fun hunknown _ => returns_pure ?_)
        fun hkept t => ?_
      · refine (henv.hangs x b hx hfind).resolve_left fun hp => ?_
        rw [show b.value.isPlaceholder = false from hunknown] at hp
        cases hp
      · cases hb with
        | unknown _ hrename hΔ =>
          rw [Locals.name_of_find? hfind] at hΔ
          refine .var t ?_
          rw [show (Found.bound b).rename? = none from hrename, InScope, Option.getD_none, hΔ]
          rfl
        | known hv => simp [Found.isPlaceholder, hv.isPlaceholder, henv.resolve] at hkept
  | lhs tag op rhs _ ih =>
    intro a h
    cases h with
    | binOp _ hop hl hr =>
      exact Returns.succ (returns_hangs_lhs eval tag hop (ih hl) (returns_plain hr henv))
  | rhs tag op lhs _ ih =>
    intro a h
    cases h with
    | binOp _ hop hl hr =>
      exact Returns.succ (returns_hangs_rhs eval tag hop (returns_plain hl henv) (ih hr))

/-- An argument that may have to hang. -/
theorem returns_arg {m : Nat → Pass Node} {P Q : Node → Prop} {p : Prop} (h : Returns env m F P)
    (hhangs : p → Returns env m F Q) : Returns env m F fun v => P v ∧ (p → Q v) := by
  by_cases hp : p
  · exact (h.and (hhangs hp)).mono fun _ hv => ⟨hv.1, fun _ => hv.2⟩
  · exact h.mono fun _ hv => ⟨hv, fun h => absurd h hp⟩

/-- An arm that is taken may stand in place of the branch; a branch that hangs stays one. -/
theorem returns_ifElse (ev : Nat → Node → Pass Node) {loose₁ loose₂ : Bool} {c e e' : Node}
    (tag : Tag)
    (hc : Returns env (fun d => ev d c) F (Graded ρ Γ H loose r · .bool))
    (ht : Returns env (fun d => ev d e) F (Graded ρ Γ H loose₁ r · a))
    (he : Returns env (fun d => ev d e') F (Graded ρ Γ H loose₂ r · a))
    (harms : loose₁ = false ∨ loose₂ = false)
    (hguard : loose = true ∨ loose₁ = false ∧ loose₂ = false ∨ Returns env (fun d => ev d c) F
      fun v => Typed ρ.store .residual Γ v .bool ∧ Hangs H v) :
    Returns env (fun d => Eval.evalIf (ev d) tag c [e] [e']) F
      (Graded ρ Γ H loose r · a) := by
  have hts := returns_single ht fun _ hv => hv.isAlias
  have hes := returns_single he fun _ hv => hv.isAlias
  rw [← or_assoc] at hguard
  rcases hguard with hopen | hhangs
  · have harm {loose' : Bool} {w : Node} (hloose : loose = true ∨ loose' = false)
        (hw : Graded ρ Γ H loose' r w a) : Graded ρ Γ H loose r w a := by
      cases loose' with
      | false => exact hw.loosen
      | true => rwa [hloose.resolve_right (by decide)]
    have ht' := ht.mono fun _ => harm (hopen.imp_right And.left)
    have he' := he.mono fun _ => harm (hopen.imp_right And.right)
    refine Eval.returns_evalIf tag hc (fun _ _ _ => returns_single_value ht' (fun _ hv => hv.isAlias) _)
      (fun _ _ _ => returns_single_value he' (fun _ hv => hv.isAlias) _) hts hes ?_
    rintro v _ _ t hv - ⟨w, rfl, hw⟩ ⟨w', rfl, hw'⟩
    exact .ifElse t hv hw hw' harms (hopen.imp_right .inl)
  · have hnone {v : Node} {b : Bool} (hv : Hangs H v) (hb : v.bool? = some b) : False := by
      rw [hv.bool?] at hb
      cases hb
    refine Eval.returns_evalIf tag (hc.and hhangs) (fun _ hv hb => (hnone hv.2.2 hb).elim)
      (fun _ hv hb => (hnone hv.2.2 hb).elim) hts hes ?_
    rintro v _ _ t hv - ⟨w, rfl, hw⟩ ⟨w', rfl, hw'⟩
    exact .ifElse t hv.1 hw hw' harms (.inr (.inr hv.2))

/-- What is known of evaluation where at most so many definitions are still to be entered. -/
def EvaluatesWithin (ρ : Grading) (K : Nat) : Prop :=
  ∀ {Δ Γ : List (Name × Builtin)} {H : Name → Prop} {loose : Bool} {r : Nat} {n : Node} {a : Builtin}
    {env : Env} {F : Fault → Prop}, Graded ρ Γ H loose r n a → Feeds ρ Δ Γ H env → IsAbove ρ r env →
    Env.pending ρ.store env ≤ K →
    Returns env (fun d => eval d n) F (Graded ρ Δ (InScope Δ) loose r · a)

section

variable {g : Name} {d : DefId} {t : Tag} {param : Decl Node} {body : List Node}

/-- A function that is not being looked into is unfolded to code of its rank. -/
theorem returns_apply (hρ : ρ.IsSound) (hcallable : ρ.callable g)
    (hg : ρ.store.lookup g = some (d, .func t param body)) (henv : Feeds ρ Δ Γ H env)
    (habove : IsAbove ρ r env) (hrank : ρ.rank g ≤ r)
    (hv : Typed ρ.store .residual Δ v (ρ.var param.name)) (hhangs : ρ.strict g → Hangs (InScope Δ) v)
    (hev : EvaluatesWithin ρ (Env.pending ρ.store (env.enterCall (.func t param body)))) (site : Span) :
    Returns env (fun d => Eval.apply (eval d) (.func t param body) param body v site) F
      (Graded ρ Δ (InScope Δ) false (ρ.rank g) · (ρ.result g)) := by
  obtain ⟨-, hfree, e, rfl, he⟩ := hρ.body hcallable hg
  have henter := henv.toInterprets.apply (.func t param [e]) (b := ⟨param.name, v, true, none⟩) hfree
    (.known hv)
  have hfeeds : Feeds ρ Δ [(param.name, ρ.var param.name)] (fun x => ρ.strict g ∧ x = param.name)
      ({ env.enterCall (.func t param [e]) with transparent := true }.push
        ⟨param.name, v, true, none⟩) := by
    refine ⟨{ henter with calls := fun _ _ h => h.elim }, ?_⟩
    rintro x b ⟨hstrict, rfl⟩ hfind
    rw [show Locals.find? _ param.name = some ⟨param.name, v, true, none⟩ from
      Locals.find?_push_self _ _] at hfind
    cases hfind
    exact .inr (hhangs hstrict)
  refine Eval.returns_apply (returns_single_value (hev he hfeeds ?_ (Nat.le_refl _))
    (fun _ hw => hw.isAlias) site)
  exact habove.enterCall hρ hcallable hg hrank

/-- A call of a function that is not being looked into becomes code of its rank. -/
theorem returns_unfolded (hρ : ρ.IsSound) {arg : Node} (tag gtag : Tag) (hcallable : ρ.callable g)
    (hg : ρ.store.lookup g = some (d, .func t param body))
    (harg : Typed ρ.store .residual Γ arg (ρ.var param.name)) (hhangs : ρ.strict g → Hangs H arg)
    (hrank : ρ.rank g ≤ r) (henv : Feeds ρ Δ Γ H env) (habove : IsAbove ρ r env)
    (hoff : env.isOnStack (.func t param body) = false)
    (hev : EvaluatesWithin ρ (Env.pending ρ.store (env.enterCall (.func t param body)))) :
    Returns env (fun d => Eval.evalCall (eval d) tag (.ident gtag g) arg) F
      (Graded ρ Δ (InScope Δ) false (ρ.rank g) · (ρ.result g)) := by
  have hgoes {v : Node} : ¬ Eval.Stays env (.func t param body) v := by
    rintro (hfunc | ⟨hon, -⟩)
    · cases hfunc
    · rw [hoff] at hon
      cases hon
  refine Eval.returns_evalCall tag (returns_function henv.toOver hg gtag)
    (returns_arg (returns_plain harg henv) fun hs => returns_hanging (hhangs hs) henv harg)
    (fun _ _ _ v hf hv _ => ?_) fun f v hf _ hstays => absurd (hf ▸ hstays henv.resolve) hgoes
  cases hf
  exact (returns_apply hρ hcallable hg henv habove hrank hv.1 hv.2 hev _).mono fun _ hw _ => hw

/-- A call of a function that is being looked into stays, if its argument is not known. -/
theorem returns_kept {arg : Node} (tag gtag : Tag)
    (hg : ρ.store.lookup g = some (d, .func t param body))
    (harg : Typed ρ.store .residual Γ arg (ρ.var param.name)) (hhangs : Hangs H arg)
    (henv : Feeds ρ Δ Γ H env) (hon : env.isOnStack (.func t param body) = true) :
    Returns env (fun d => Eval.evalCall (eval d) tag (.ident gtag g) arg) F
      fun w => ∃ t v, w = .call t (.ident gtag g) v ∧
        Typed ρ.store .residual Δ v (ρ.var param.name) ∧ Hangs (InScope Δ) v := by
  have hstays {v : Node} (hv : Hangs (InScope Δ) v) : Eval.Stays env (.func t param body) v :=
    .inr ⟨hon, .inr hv.isStatic⟩
  refine Eval.returns_evalCall tag (returns_function henv.toOver hg gtag)
    ((returns_plain harg henv).and (returns_hanging hhangs henv harg))
    (fun _ _ _ v hf hv hgoes => ?_) fun f v hf hv _ => ?_
  · cases hf
    exact absurd (hstays hv.2) hgoes
  · subst hf
    refine Eval.returns_keptCallee (fun _ _ _ hr => ?_) fun _ => Eval.returns_residualCallee
      (fun hnone => ?_) fun _ _ _ _ _ _ _ t' => ⟨t', v, rfl, hv⟩
    · rw [henv.resolve] at hr
      cases hr
    · cases hnone gtag g d _ rfl (henv.toOver.lookup_defined hg)

end

/-- A step into a function leaves one definition less to enter. -/
theorem Graded.returns (hρ : ρ.IsSound) {K : Nat} (hev : ∀ K' < K, EvaluatesWithin ρ K')
    (h : Graded ρ Γ H loose r n a) (henv : Feeds ρ Δ Γ H env) (habove : IsAbove ρ r env)
    (hK : Env.pending ρ.store env ≤ K) :
    Returns env (fun d => eval d n) F (Graded ρ Δ (InScope Δ) loose r · a) := by
  induction h with
  | plain h => exact (returns_plain h henv).mono fun _ => .plain
  | binOp tag hop _ _ ihl ihr =>
    refine Returns.succ (Eval.returns_evalBinOp tag hop (ihl habove) (ihr habove)
      (fun _ _ _ _ l t _ _ _ _ hfold => ?_) fun u w t hu hw _ => .binOp t hop hu hw)
    rw [← Operator.builtin_of_fold hfold]
    exact .plain (.lit t l)
  | ifElse tag _ _ _ harms hguard ihc iht ihe =>
    refine Returns.succ (returns_ifElse eval tag (ihc habove) (iht habove) (ihe habove) harms
      (hguard.imp_right (.imp_right fun ⟨hc, hhangs⟩ => ?_)))
    exact (returns_plain hc henv).and (returns_hanging hhangs henv hc)
  | call tag gtag hcallable hg harg hhangs hrank hlower =>
    refine Returns.succ ?_
    cases hon : env.isOnStack (.func _ _ _) with
    | false =>
      have hlt := Nat.lt_of_lt_of_le (Env.pending_enterCall_lt hg hon) hK
      refine (returns_unfolded hρ tag gtag hcallable hg harg (fun hs => hhangs (.inl hs)) hrank henv
        habove hon (hev _ hlt)).mono fun w hw => (hw.loosen).raise hrank
    | true =>
      -- Code that must have a type calls nothing that is being looked into.
      have hhigh := habove hcallable hg hon
      refine (returns_kept tag gtag hg harg (hhangs (.inr hhigh)) henv hon).mono ?_
      rintro w ⟨t, v, rfl, hv, hhangs'⟩
      refine .call t gtag hcallable hg hv (fun _ => hhangs') hrank hlower

theorem evaluates (hρ : ρ.IsSound) : ∀ K, EvaluatesWithin ρ K := by
  intro K
  induction K using Nat.strongRecOn with
  | _ K ih => exact fun h henv habove hK => h.returns hρ ih henv habove hK

/-! ### Where names are kept -/

/-- What hangs on names hangs on them where they are kept. -/
theorem returns_hanging_kept (hhangs : Hangs H n) (henv : Keeps ρ.store Γ env) :
    ∀ {a : Builtin}, Typed ρ.store .residual Γ n a → ∀ d,
    Returns env (fun _ => eval d n) AnyFault (Hangs H) := by
  induction hhangs with
  | var tag hx =>
    intro a h d
    cases d with
    | zero => exact returns_throw trivial
    | succ d =>
      cases h with
      | var _ hΓ =>
        obtain ⟨b, hfind, ht, hr⟩ := henv.vars _ _ hΓ
        exact (FirstOrder.returns_kept henv.resolve (Env.lookup_bound hfind) ht hr tag).mono
          fun _ hv => hv ▸ .var tag hx
  | lhs tag op rhs _ ih =>
    intro a h d
    cases d with
    | zero => exact returns_throw trivial
    | succ d =>
      cases h with
      | binOp _ hop hl hr =>
        exact returns_hangs_lhs (fun _ => eval d) tag hop (ih hl d) (hr.keeps henv d)
  | rhs tag op lhs _ ih =>
    intro a h d
    cases d with
    | zero => exact returns_throw trivial
    | succ d =>
      cases h with
      | binOp _ hop hl hr =>
        exact returns_hangs_rhs (fun _ => eval d) tag hop (hl.keeps henv d) (ih hr d)

/-- Where names are kept, code evaluates to code of its type and rank. -/
theorem Graded.keeps (h : Graded ρ Γ H loose r n a) (henv : Keeps ρ.store Γ env) :
    ∀ d, Returns env (fun _ => eval d n) AnyFault (Graded ρ Γ H loose r · a) := by
  induction h with
  | plain h => exact fun d => (h.keeps henv d).mono fun _ => .plain
  | binOp tag hop _ _ ihl ihr =>
    intro d
    cases d with
    | zero => exact returns_throw trivial
    | succ d =>
      refine Eval.returns_evalBinOp tag hop (ihl d) (ihr d) (fun _ _ _ _ l t _ _ _ _ hfold => ?_)
        fun u w t hu hw _ => .binOp t hop hu hw
      rw [← Operator.builtin_of_fold hfold]
      exact .plain (.lit t l)
  | ifElse tag _ _ _ harms hguard ihc iht ihe =>
    intro d
    cases d with
    | zero => exact returns_throw trivial
    | succ d =>
      exact returns_ifElse (fun _ => eval d) tag (ihc d) (iht d) (ihe d) harms
        (hguard.imp_right (.imp_right fun ⟨hc, hhangs⟩ =>
          (hc.keeps henv d).and (returns_hanging_kept hhangs henv hc d)))
  | call tag gtag hcallable hg harg hhangs hrank hlower =>
    intro d
    cases d with
    | zero => exact returns_throw trivial
    | succ d =>
      refine (returns_keep_call henv tag gtag hg (returns_arg (harg.keeps henv d)
        fun hs => returns_hanging_kept (hhangs hs) henv harg d)).mono ?_
      rintro w ⟨t, v, rfl, hv, hhangs'⟩
      exact .call t gtag hcallable hg hv hhangs' hrank hlower

/-! ## Checking -/

/-- The names in scope are of their types. -/
def IsTypedBy (ρ : Grading) (Γ : List (Name × Builtin)) : Prop :=
  ∀ x a, Γ.lookup x = some a → ρ.var x = a

theorem IsTypedBy.cons (h : IsTypedBy ρ Γ) (x : Name) : IsTypedBy ρ ((x, ρ.var x) :: Γ) := by
  intro y a hy
  by_cases hname : y = x
  · subst hname
    rw [List.lookup_cons_self] at hy
    exact Option.some.inj hy
  · rw [lookup_cons_of_ne _ hname] at hy
    exact h y a hy

/-- A name that is bound again hides one of its own type. -/
theorem IsTypedBy.lookup_cons (h : IsTypedBy ρ Γ) (x : Name) :
    ∀ y a, Γ.lookup y = some a → List.lookup y ((x, ρ.var x) :: Γ) = some a := by
  intro y a hy
  by_cases hname : y = x
  · subst hname
    rw [List.lookup_cons_self, h y a hy]
  · rwa [lookup_cons_of_ne _ hname]

theorem inScope_of_lookup (hΓ : ∀ x a, Γ.lookup x = some a → Δ.lookup x = some a) (x : Name)
    (hx : InScope Γ x) : InScope Δ x := by
  obtain ⟨a, ha⟩ := Option.isSome_iff_exists.1 hx
  rw [InScope, hΓ x a ha]
  rfl

/-- The fault of code that may be void. -/
def Lapses (loose : Bool) (f : Fault) : Prop := loose = true ∧ f = .void

/-- What is known of checking where at most so many definitions are still to be entered. -/
def PassesWithin (ρ : Grading) (K : Nat) : Prop :=
  ∀ {Γ : List (Name × Builtin)} {H : Name → Prop} {loose : Bool} {r : Nat} {n : Node} {a : Builtin}
    {env : Env}, Graded ρ Γ H loose r n a → (∀ x, H x → InScope Γ x) → Checks ρ.store Nobody Γ env →
    IsTypedBy ρ Γ → IsAbove ρ r env → Env.pending ρ.store env ≤ K →
    Returns env (fun d => check d n) (Lapses loose) (IsDataType a)

section

variable {g : Name} {d : DefId} {t : Tag} {param : Decl Node} {body : List Node}

/-- The callee of a call: a function that is being looked into is void. -/
theorem returns_callee (hρ : ρ.IsSound) (gtag : Tag) (hcallable : ρ.callable g)
    (hg : ρ.store.lookup g = some (d, .func t param body)) (henv : Checks ρ.store Nobody Γ env)
    (habove : IsAbove ρ r env) (hrank : ρ.rank g ≤ r)
    (hvoid : env.isOnStack (.func t param body) = true → F .void)
    (hck : env.isOnStack (.func t param body) = false →
      PassesWithin ρ (Env.pending ρ.store (env.enterCall (.func t param body)))) :
    Returns env (fun d => check d (.ident gtag g)) F fun ty => ∃ tag id dom cod,
      ty = .fnType tag id dom cod ∧ (IsDataType (ρ.var param.name) dom ∧ IsDataType (ρ.result g) cod) ∧
        env.isOnStack (.func t param body) = false := by
  obtain ⟨hty, hfree, e, rfl, he⟩ := hρ.body hcallable hg
  have hglobals := henv.globals
  refine Returns.succ (Check.returns_checkDefinition gtag (henv.toOver.lookup_defined hg)
    (fun _ => Returns.succ (Check.returns_checkFunc (B := fun _ cod => IsDataType (ρ.result g) cod ∧
      env.isOnStack (.func t param [e]) = false) hvoid
      (returns_declaredType hglobals.toOver hty) (fun ty t' hty' hoff => ?_)
      fun u id dom cod hdom hcod => ⟨u, id, dom, cod, rfl, ⟨hdom, hcod.1⟩, hcod.2⟩))
    (fun hfunc => by cases hfunc) fun hfunc => by cases hfunc)
  have henv' := (((hglobals.enterCall (.func t param [e])).push
    (b := ⟨param.name, .selfType t' ty, false, none⟩) hfree ⟨⟨t', ty, rfl, hty'⟩, rfl⟩).resolve
      false).mono (q := Nobody) fun _ hi => hi.elim
  have hagrees : IsTypedBy ρ [(param.name, ρ.var param.name)] :=
    IsTypedBy.cons (fun _ _ h => by cases h) param.name
  have hbody := hck hoff he (fun x hx => by rw [InScope, hx.2, List.lookup_cons_self]; rfl) henv'
    hagrees (habove.enterCall hρ hcallable hg hrank) (Nat.le_refl _)
  refine (Check.returns_checkSingle (hbody.faults fun f hf => ?_) he.boundName? _).mono
    fun _ h => ⟨h, hoff⟩
  cases hf.1

/-- A call has the type of what it becomes. -/
theorem returns_checkCall (hρ : ρ.IsSound) {K : Nat} (hck : ∀ K' < K, PassesWithin ρ K') {arg : Node}
    (tag gtag : Tag) (hcallable : ρ.callable g)
    (hg : ρ.store.lookup g = some (d, .func t param body))
    (harg : Typed ρ.store .residual Γ arg (ρ.var param.name)) (hhangs : ρ.strict g → Hangs H arg)
    (hH : ∀ x, H x → InScope Γ x) (hrank : ρ.rank g ≤ r) (hlower : loose = false → ρ.rank g < r)
    (henv : Checks ρ.store Nobody Γ env) (hΓ : IsTypedBy ρ Γ) (habove : IsAbove ρ r env)
    (hK : Env.pending ρ.store env ≤ K) :
    Returns env (fun d => Check.checkCall (eval d) (check d) tag (.ident gtag g) arg) (Lapses loose)
      (IsDataType (ρ.result g)) := by
  have hfree := (hρ.body hcallable hg).2.1
  have hvoid (hon : env.isOnStack (.func t param body) = true) : Lapses loose .void := by
    refine ⟨Bool.of_not_eq_false fun hheld => ?_, rfl⟩
    exact Nat.not_lt.2 (habove hcallable hg hon) (hlower hheld)
  have hpending (hoff : env.isOnStack (.func t param body) = false) :
      Env.pending ρ.store (env.enterCall (.func t param body)) < K :=
    Nat.lt_of_lt_of_le (Env.pending_enterCall_lt hg hoff) hK
  refine Check.returns_checkCall tag
    (returns_callee hρ gtag hcallable hg henv habove hrank hvoid fun hoff => hck _ (hpending hoff))
    (residualChecks ρ.store harg henv).noFault
    (fun dom cod u hS hu => (hS.1.1.compatible_iff hu).2 rfl)
    (returns_found rfl ((henv.resolve true).toOver.lookup_defined hg) rfl rfl gtag) ?_
    fun dom cod hS => hS.1.2
  rintro dom cod t' param' body' ⟨⟨hdom, -⟩, hoff⟩ hfun
  cases hfun
  have hfeeds := feeds_of_checks henv hH
  refine ⟨_, Returns.succ (returns_unfolded hρ tag gtag hcallable hg harg hhangs hrank hfeeds habove hoff
    (evaluates hρ _)), fun result u hresult => ?_⟩
  have henv' := ((henv.enterCall (.func t param body)).push
    (b := ⟨param.name, .selfType u dom, true, none⟩) hfree ⟨⟨u, dom, rfl, hdom⟩, rfl⟩).mono
      (q := Nobody) fun _ hi => hi.elim
  refine (hck _ (hpending hoff) (hresult.weaken (hΓ.lookup_cons param.name))
    (inScope_of_lookup (hΓ.lookup_cons param.name)) henv' (hΓ.cons param.name)
    (habove.enterCall hρ hcallable hg hrank) (Nat.le_refl _)).faults fun f hf => ?_
  cases hf.1

end

/-- Code passes with its type, unless it may be void. -/
theorem Graded.passes (hρ : ρ.IsSound) {K : Nat} (hck : ∀ K' < K, PassesWithin ρ K')
    (h : Graded ρ Γ H loose r n a) (hH : ∀ x, H x → InScope Γ x)
    (henv : Checks ρ.store Nobody Γ env) (hΓ : IsTypedBy ρ Γ) (habove : IsAbove ρ r env)
    (hK : Env.pending ρ.store env ≤ K) :
    Returns env (fun d => check d n) (Lapses loose) (IsDataType a) := by
  have hcompatible {a : Builtin} (t u : Node) (ht : IsDataType a t) (hu : IsDataType a u) :
      compatible t u = true := (ht.compatible_iff hu).2 rfl
  have hfits {a : Builtin} (ha : a.isData = true) (t : Node) (ht : IsDataType a t) :
      Check.fits a t = true := hcompatible _ t ⟨ha, _, rfl⟩ ht
  induction h with
  | plain h => exact (residualChecks ρ.store h henv).noFault
  | binOp tag hop _ _ ihl ihr =>
    refine Returns.succ (Check.returns_checkBinOp tag hop (ihl habove) (hfits rfl) (ihr habove)
      (hfits rfl) fun t => ⟨Operator.isData_result _, t, rfl⟩)
  | ifElse tag hc ht he harms _ ihc iht ihe =>
    refine Returns.succ (Check.returns_checkIf tag (ihc habove) (hfits rfl)
      (Check.returns_checkSingle (iht habove) ht.boundName? _)
      (Check.returns_checkSingle (ihe habove) he.boundName? _) (fun _ hf => .inl hf.2)
      (fun _ hf => .inl hf.2) restores_check hcompatible fun hthen helse => ?_)
    rcases harms with hheld | hheld
    · rw [hheld] at hthen
      cases hthen.1
    · rw [hheld] at helse
      cases helse.1
  | call tag gtag hcallable hg harg hhangs hrank hlower =>
    exact Returns.succ (returns_checkCall hρ hck tag gtag hcallable hg harg
      (fun hs => hhangs (.inl hs)) hH hrank hlower henv hΓ habove hK)

theorem passes (hρ : ρ.IsSound) : ∀ K, PassesWithin ρ K := by
  intro K
  induction K using Nat.strongRecOn with
  | _ K ih => exact fun h hH henv hΓ habove hK => h.passes hρ ih hH henv hΓ habove hK

/-! ## Programs -/

/-- A program: code, or a function whose body is a program. A function of the program that is the same
as one that is defined is of the rank of the program at least. -/
inductive Program (ρ : Grading) (r : Nat) :
    (NodeId → Prop) → List (Name × Builtin) → Node → Shape Builtin → Prop where
  | code {p : NodeId → Prop} {Γ : List (Name × Builtin)} {n : Node} {a : Builtin}
    (h : Graded ρ Γ (InScope Γ) false r n a) : Program ρ r p Γ n (.data a)
  | func {p : NodeId → Prop} {Γ : List (Name × Builtin)} {param : Decl Node} {n : Node}
    {σ : Shape Builtin} (tag : Tag) (hp : p tag.id)
    (hrank : ∀ {g d f}, ρ.callable g → ρ.store.lookup g = some (d, f) → f.id = tag.id → r ≤ ρ.rank g)
    (hty : ρ.store.Declares param.ty (ρ.var param.name)) (hx : Γ.lookup param.name = none)
    (hfree : ρ.store.IsFree param.name)
    (hbody : Program ρ r (fun i => p i ∧ i ≠ tag.id) ((param.name, ρ.var param.name) :: Γ) n σ) :
    Program ρ r p Γ (.func tag param [n]) (.fn σ)

namespace Program

variable {p : NodeId → Prop} {σ : Shape Builtin}

theorem isAlias (h : Program ρ r p Γ n σ) : n.isAlias = false := by
  cases h with
  | code h => exact h.isAlias
  | func => rfl

theorem boundName? (h : Program ρ r p Γ n σ) : n.boundName? = none := by
  cases h with
  | code h => exact h.boundName?
  | func => rfl

theorem mono {q : NodeId → Prop} (h : Program ρ r p Γ n σ) (hpq : ∀ i, p i → q i) :
    Program ρ r q Γ n σ := by
  induction h generalizing q with
  | code h => exact .code h
  | func tag hp hrank hty hx hfree _ ih =>
    exact .func tag (hpq _ hp) hrank hty hx hfree (ih fun i hi => ⟨hpq i hi.1, hi.2⟩)

end Program

/-- A function of the program that is entered is of the rank of the program at least. -/
theorem IsAbove.enter (h : IsAbove ρ r env) {f : Node}
    (hf : ∀ {g d f'}, ρ.callable g → ρ.store.lookup g = some (d, f') → f'.id = f.id → r ≤ ρ.rank g) :
    IsAbove ρ r (env.enterCall f) := by
  intro g d f' hcallable hg hon
  rcases Env.isOnStack_enterCall hon with hid | hon
  · exact hf hcallable hg hid
  · exact h hcallable hg hon

/-- A program passes the checker with its type. -/
theorem Program.passes (hρ : ρ.IsSound) {p : NodeId → Prop} {σ : Shape Builtin}
    (h : Program ρ r p Γ n σ) : ∀ {env : Env}, Checks ρ.store p Γ env → IsTypedBy ρ Γ → IsAbove ρ r env →
    Returns env (fun d => check d n) NoFault σ.Denotes := by
  induction h with
  | code h =>
    intro env henv hΓ habove
    refine (GuardedRecursion.passes hρ _ h (fun _ hx => hx) (henv.mono fun _ hi => hi.elim) hΓ habove
      (Nat.le_refl _)).faults fun f hf => ?_
    cases hf.1
  | @func p Γ param n σ tag hp hrank hty hx hfree hbody ih =>
    intro env henv hΓ habove
    refine Returns.succ (Check.returns_checkFunc (B := fun _ => σ.Denotes) (fun hon => ?_)
      (returns_declaredType henv.toOver hty) (fun ty t hty' _ => ?_)
      fun t id dom cod _ hcod => ⟨t, id, dom, cod, rfl, hcod⟩)
    · rw [henv.isOnStack (n := .func tag param [n]) hp] at hon
      cases hon
    · have henv' := ((henv.enterCall (.func tag param [n])).push
        (b := ⟨param.name, .selfType t ty, false, none⟩) hfree ⟨⟨t, ty, rfl, hty'⟩, rfl⟩).resolve false
      exact Check.returns_checkSingle (ih henv' (hΓ.cons param.name) (habove.enter hrank))
        hbody.boundName? _

/-- An environment of a program: only parameters are bound, and all that is known of them is their
types. -/
structure BindsParams (ρ : Grading) (p : NodeId → Prop) (Γ : List (Name × Builtin)) (env : Env) : Prop
    extends Checks ρ.store p Γ env where
  shown : ∀ b ∈ env.locals.bindings, b.transparent = false
  transparent : env.transparent = false

namespace BindsParams

variable {p : NodeId → Prop}

theorem keeps (h : BindsParams ρ p Γ env) (hr : env.resolve = false) : Keeps ρ.store Γ env where
  toOver := h.toOver
  resolve := hr
  transparent := h.transparent
  vars x a hx := by
    obtain ⟨b, hfind, -, hrename⟩ := h.vars x a hx
    exact ⟨b, hfind, h.shown b (List.mem_of_find?_eq_some (Locals.find?_eq .. ▸ hfind)), hrename⟩
  others := h.others

/-- A parameter of the program is bound. -/
theorem enter (h : BindsParams ρ p Γ env) (f : Node) {x : Name} {a : Builtin} (u u' : Tag)
    (hfree : ρ.store.IsFree x) (ha : a.isData = true) :
    BindsParams ρ (fun i => p i ∧ i ≠ f.id) ((x, a) :: Γ)
      ((env.enterCall f).push ⟨x, .selfType u' (.builtin u a), false, none⟩) where
  toChecks := (h.toChecks.enterCall f).push (b := ⟨x, .selfType u' (.builtin u a), false, none⟩) hfree
    ⟨⟨u', _, rfl, ha, u, rfl⟩, rfl⟩
  shown := List.forall_mem_cons.2 ⟨rfl, h.shown⟩
  transparent := h.transparent

end BindsParams

/-- Code of a program evaluates to code of its type and rank, in either mode. -/
theorem Graded.evaluates (hρ : ρ.IsSound) {p : NodeId → Prop} {d : Nat} {s t : Machine}
    (h : Graded ρ Γ (InScope Γ) false r n a) (hs : BindsParams ρ p Γ s.env) (habove : IsAbove ρ r s.env)
    (hrun : (eval d n).runOn s = (.ok v, t)) : Graded ρ Γ (InScope Γ) false r v a := by
  cases hr : s.env.resolve with
  | true =>
    have hfeeds := feeds_of_checks (ρ := ρ) hs.toChecks fun x (hx : InScope Γ x) => hx
    rw [show { s.env with resolve := true } = s.env by rw [← hr]] at hfeeds
    exact ((GuardedRecursion.evaluates hρ _ (F := AnyFault) h hfeeds habove (Nat.le_refl _)).of_run
      (fun _ _ hle => approximates_eval hle n) d rfl hrun).1
  | false =>
    exact ((h.keeps (hs.keeps hr) d).of_run (m := fun _ => eval d n)
      (fun _ _ _ => approximates_refl _) 0 rfl hrun).1

/-- A program evaluates to a program of its type. Its functions are newer than those that are
defined. -/
theorem Program.evaluates (hρ : ρ.IsSound) {p : NodeId → Prop} {σ : Shape Builtin}
    (h : Program ρ r p Γ n σ) : ∀ {d : Nat} {s t : Machine} {v : Node}, BindsParams ρ p Γ s.env →
    IsAbove ρ r s.env →
    (∀ {g d f}, ρ.callable g → ρ.store.lookup g = some (d, f) → f.id < s.nodes.next) →
    (eval d n).runOn s = (.ok v, t) → Program ρ r (· < t.nodes.next) Γ v σ := by
  induction h with
  | code h => exact fun hs habove _ hrun => .code (h.evaluates hρ hs habove hrun)
  | @func p Γ param n σ tag hp hrank hty hx hfree hbody ih =>
    intro d s t v hs habove hnew hrun
    cases d with
    | zero => cases hrun
    | succ d =>
      obtain ⟨u, u', body', s', t', hrun', henv, hnext, rfl, hlast⟩ :=
        evalFunc_ok hrun hs.toOver hty (hs.others _ hx) hfree
      simp only [List.mapM_cons, List.mapM_nil] at hrun'
      obtain ⟨w, s₁, hw, hrun'⟩ := runOn_bind_ok hrun'
      obtain ⟨w', s₂, hw', hbind⟩ := runOn_bind_ok hw
      cases hrun'
      have hs' := hs.enter (.func tag param [n]) u u' hfree hty.isData
      have hprogram := ih (henv ▸ hs') (by rw [henv]; exact habove.enter hrank)
        (fun hcallable hg => Nat.lt_of_lt_of_le (hnew hcallable hg) hnext) hw'
      rw [Eval.bindLocal_of_not_isAlias hprogram.isAlias] at hbind
      obtain ⟨rfl, rfl⟩ := runOn_pure_ok hbind
      refine .func _ (hlast ▸ Nat.lt_succ_self _) (fun hcallable hg hid => ?_)
        (.builtin u hty.isData) hx hfree (hprogram.mono fun i hi => ⟨?_, Nat.ne_of_lt hi⟩)
      · have hlt := Nat.lt_of_lt_of_le (hnew hcallable hg) hnext
        rw [hid] at hlt
        exact absurd ((restores_eval d n).next_le hw') (Nat.not_le.2 hlt)
      · exact hlast ▸ Nat.lt_succ_of_lt hi

end GuardedRecursion

end Residual
