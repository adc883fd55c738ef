/-
Type preservation. If a program passes the checker and evaluates to a value, then the value passes with a
compatible type. This is so for first-order programs, for calls of first-order function literals and for
programs with guarded recursion, in either mode. Where names are resolved, it is so for programs without
parameters that yield a number, a truth value or a string, whatever they compute it with; where names
are kept, for calls of definitions with literals. For all simply typed programs it is so as far as the
type of the value is settled: a definition that is met while it is being checked has none.

It is not so where `Any` takes what has another type.
-/
import Residual.Proofs.Application
import Residual.Proofs.GuardedRecursion
import Residual.Proofs.Operands
import Residual.Proofs.SimplyTypedCheck
import Residual.Proofs.SimplyTypedValues

namespace Residual

open Pass

/-! ## Classes of programs -/

/-- A program with guarded recursion, over functions with identities below a bound. -/
def Node.IsGuarded (store : Definitions) (bound : NodeId) (n : Node) : Prop :=
  ∃ ρ r σ, ρ.store = store ∧ ρ.IsSound ∧
    (∀ {g d f}, ρ.callable g → store.lookup g = some (d, f) → f.id < bound) ∧
    GuardedRecursion.Program ρ r (· < bound) [] n σ

/-- A call of a first-order function literal. -/
def Node.IsApplication (store : Definitions) (n : Node) : Prop :=
  ∃ a, FirstOrder.Application (fun _ => ()) store n a

/-- A simply typed program. -/
def Node.IsSimplyTyped (store : Definitions) (n : Node) : Prop :=
  ∃ σ w τ, σ.store = store ∧ σ.IsSound ∧ w ≠ .blocked ∧ SimplyTyped.Program σ w .empty n τ

/-- Simply typed code without parameters and loops that yields a number, a truth value or a string. -/
def Node.IsScalar (store : Definitions) (n : Node) : Prop :=
  ∃ σ w b, σ.store = store ∧ σ.IsSound ∧ σ.IsStatic ∧ ¬ σ.loops ∧ w ≠ .blocked ∧ b ≠ .list ∧
    SimplyTyped.Code σ w .empty n (.builtin b)

/-- A simply typed call of a definition, by its name and with a literal. -/
def Node.IsKnownCall (store : Definitions) (n : Node) : Prop :=
  n.IsSimplyTyped store ∧ ∃ tag ftag f ltag l, n = .call tag (.ident ftag f) (.lit ltag l)

/-- Two machines in one environment, both of which have made the node and the definitions before. -/
def Machine.Share (s s' : Machine) (n : Node) : Prop :=
  s'.env = s.env ∧ ∃ c, s.env.Older c ∧ n.Older c ∧ c ≤ s.nodes.next ∧ c ≤ s'.nodes.next

section

variable {store : Definitions} {n v ty : Node} {s₁ s₂ s₃ t₁ t₂ : Machine} {depth₁ depth₂ : Nat}

/-- A run that ends with a result has what every run has. -/
theorem of_returns {m : Pass Node} {F : Fault → Prop} {P : Node → Prop} {s t : Machine}
    (h : Returns s.env (fun _ => m) F P) (hrun : m.runOn s = (.ok v, t)) : P v :=
  (h.of_run (fun _ _ _ => approximates_refl _) 0 rfl hrun).1

/-! ## Calls of function literals -/

theorem Node.IsApplication.preserves (h₁ : s₁.env.IsFresh store) (h₂ : s₂.env.IsFresh store)
    (h₃ : s₃.env.IsFresh store) (hn : n.IsApplication store)
    (hcheck : (check depth₁ n).runOn s₁ = (.ok ty, t₁))
    (heval : (eval depth₂ n).runOn s₂ = (.ok v, t₂)) : s₃.PassesAs v ty := by
  obtain ⟨_, hn⟩ := hn
  obtain ⟨⟨a, hty, -, hn⟩, -⟩ := (hn.checked FirstOrder.reading_unknown h₁).of_run
    (fun _ _ hle => approximates_check hle n) depth₁ rfl hcheck
  have hv : Returns s₃.env (fun d => check d v) NoFault (FirstOrder.IsDataType a) := by
    cases hr : s₂.env.resolve with
    | true =>
      obtain ⟨hv, -⟩ := (hn.returns (F := AnyFault) h₂ hr).of_run
        (fun _ _ hle => approximates_eval hle n) depth₂ rfl heval
      exact FirstOrder.residualChecks store hv (h₃.checks _)
    | false => exact (of_returns (hn.keeps h₂ hr depth₂) heval).passes h₃
  obtain ⟨ty', t₃, depth, hty', hrun⟩ := hv.exists_run
  exact ⟨ty', t₃, ⟨depth, hrun⟩, (hty.compatible_iff hty').2 rfl⟩

/-! ## Guarded recursion -/

namespace Env.IsFresh

variable {env : Env} {ρ : GuardedRecursion.Grading}

theorem isAbove (h : env.IsFresh ρ.store) (r : Nat) : GuardedRecursion.IsAbove ρ r env := by
  intro g d f _ _ hon
  rw [h.isOnStack] at hon
  cases hon

theorem bindsParams (h : env.IsFresh ρ.store) (p : NodeId → Prop) :
    GuardedRecursion.BindsParams ρ p [] env where
  toChecks := h.checks p
  shown b hb := by
    rw [h.locals] at hb
    cases hb
  transparent := h.transparent

end Env.IsFresh

theorem Node.IsGuarded.preserves (h₁ : s₁.env.IsFresh store) (h₂ : s₂.env.IsFresh store)
    (h₃ : s₃.env.IsFresh store) (hn : n.IsGuarded store s₂.nodes.next)
    (hcheck : (check depth₁ n).runOn s₁ = (.ok ty, t₁))
    (heval : (eval depth₂ n).runOn s₂ = (.ok v, t₂)) : s₃.PassesAs v ty := by
  obtain ⟨ρ, r, σ, rfl, hρ, hnew, hn⟩ := hn
  have hnil : GuardedRecursion.IsTypedBy ρ [] := fun _ _ h => by cases h
  obtain ⟨hty, -⟩ := (hn.passes hρ (h₁.checks _) hnil (h₁.isAbove r)).of_run
    (fun _ _ hle => approximates_check hle n) depth₁ rfl hcheck
  have hv := hn.evaluates hρ (h₂.bindsParams _) (h₂.isAbove r) hnew heval
  obtain ⟨o, t₃, hends, depth, hrun⟩ := hv.passes hρ (h₃.checks _) hnil (h₃.isAbove r) s₃ rfl
  cases o with
  | error e => exact hends.elim
  | ok ty' => exact ⟨ty', t₃, ⟨depth, hrun⟩, hty.compatible hends.1⟩

/-! ## Simply typed programs -/

section

open SimplyTyped

variable {σ : Signature} {env : Env}

theorem Env.IsFresh.views (h : env.IsFresh σ.store) (w : Way) : Views σ w .empty env where
  toOver := h.isOver
  vars _ hx := hx.elim
  transparent := h.transparent
  tight _ b hb := by
    rw [h.locals] at hb
    cases hb

theorem Env.IsFresh.tight (h : env.IsFresh store) : Tight .empty .empty env where
  names b hb := by
    rw [h.locals] at hb
    cases hb
  residuals _ hx := hx.elim
  transparent := h.transparent

theorem Node.IsScalar.preserves (h₁ : s₁.env.IsFresh store) (h₂ : s₂.env.IsFresh store)
    (hr : s₂.env.resolve = true) (hn : n.IsScalar store)
    (hcheck : (check depth₁ n).runOn s₁ = (.ok ty, t₁))
    (heval : (eval depth₂ n).runOn s₂ = (.ok v, t₂)) : s₃.PassesAs v ty := by
  obtain ⟨σ, w, b, rfl, hσ, hstatic, hloops, hw, hb, hn⟩ := hn
  have hty := of_returns ((Program.code hn).passes hσ hw (h₁.views .tidy) depth₁) hcheck
  have henv : Determines σ .empty s₂.env :=
    ⟨(h₂.views .bare).supplies fun htidy => htidy, hr, fun _ _ hx => hx.elim⟩
  obtain ⟨hv, hknown⟩ := of_returns ((computes_eval hσ hstatic hloops depth₂).both hn henv) heval
  obtain ⟨tag, l, rfl, hl⟩ := hv.exists_lit hknown hb
  refine ⟨.builtin ⟨s₃.nodes.next, .builtin⟩ b, ⟨s₃.env, ⟨s₃.nodes.next + 1⟩⟩, ⟨1, fun d hd => ?_⟩,
    hty.compatible (.builtin _ b)⟩
  obtain ⟨k, rfl⟩ : ∃ k, d = k + 1 := ⟨d - 1, by omega⟩
  rw [← hl]
  rfl

theorem Node.IsSimplyTyped.preserves (h₁ : s₁.env.IsFresh store) (h₂ : s₂.env.IsFresh store)
    (h₃ : s₃.env.IsFresh store) (hn : n.IsSimplyTyped store)
    (hcheck : (check depth₁ n).runOn s₁ = (.ok ty, t₁))
    (heval : (eval depth₂ n).runOn s₂ = (.ok v, t₂)) (d : Nat) :
    (∀ ty', ((check d v).runOn s₃).1 = .ok ty' → compatible ty ty' = true) ∧
      ∀ f, ((check d v).runOn s₃).1 = .error f → Unsettled f := by
  obtain ⟨σ, w, τ, rfl, hσ, hw, hn⟩ := hn
  have hty := of_returns (hn.passes hσ hw (h₁.views .tidy) depth₁) hcheck
  obtain ⟨u, hu, hv⟩ : ∃ u, u ≠ .blocked ∧ Program σ u .empty v τ := by
    cases hr : s₂.env.resolve with
    | true =>
      exact ⟨.bare, Way.bare_ne_blocked, of_returns (hn.evaluates hσ
        ((h₂.views .bare).supplies fun htidy => htidy) h₂.tight (.inl ⟨hr, Way.bare_ne_tidy⟩) depth₂)
        heval⟩
    | false =>
      exact ⟨w, hw, of_returns (hn.evaluates hσ ((h₂.views w).supplies fun htidy => htidy) h₂.tight
        (.inr ⟨hr, rfl⟩) depth₂) heval⟩
  obtain ⟨o, t₃, hends, depth, hrun⟩ := hv.passes hσ hu (h₃.views .tidy) d s₃ rfl
  rw [hrun depth (Nat.le_refl _)]
  constructor
  · rintro ty' rfl
    exact hty.compatible hends.1
  · rintro f rfl
    exact hends

end

/-! ## Calls of definitions -/

/-- Of the tag of a call, the checker sees the location only. -/
theorem check_call_congr {t t' : Tag} (h : t'.span = t.span) (callee arg : Node) (d : Nat) :
    check d (.call t' callee arg) = check d (.call t callee arg) := by
  obtain ⟨i, span⟩ := t
  obtain rfl : t'.span = span := h
  match d with
  | 0 | 1 | _ + 2 => rfl

/-- Where names are kept, the name of a definition stays. -/
theorem returns_keptName {env : Env} (henv : env.IsFresh store) (hr : env.resolve = false) (tag : Tag)
    (x : Name) : Returns env (fun _ => Eval.evalIdent tag x) AnyFault (· = .ident tag x) := by
  cases hx : env.lookup x with
  | none =>
    refine returns_env.bind fun _ heq => ?_
    subst heq
    simp only [hx]
    exact returns_throw trivial
  | some found =>
    cases found with
    | bound b =>
      obtain ⟨hb, -⟩ := Env.mem_of_lookup_bound hx
      rw [henv.locals] at hb
      cases hb
    | defined d v => exact FirstOrder.returns_kept hr hx rfl rfl tag
    | builtin b => exact FirstOrder.returns_kept hr hx rfl rfl tag

/-- Where names are kept, the call of a definition with a literal stays as it is, in a new node. -/
theorem returns_knownCall {env : Env} (henv : env.IsFresh store) (hr : env.resolve = false)
    (tag ftag ltag : Tag) (f : Name) (l : Literal) (d : Nat) :
    Returns env (fun _ => eval d (.call tag (.ident ftag f) (.lit ltag l))) AnyFault
      fun v => ∃ t, t.span = tag.span ∧ v = .call t (.ident ftag f) (.lit ltag l) := by
  cases d with
  | zero => exact returns_throw trivial
  | succ d =>
    have hcallee := Eval.restores_evalType (restores_eval d) (.ident ftag f)
    have harg : Returns env (fun _ => eval d (.lit ltag l)) AnyFault (· = .lit ltag l) := by
      cases d with
      | zero => exact returns_throw trivial
      | succ d => exact returns_pure rfl
    refine (hcallee.returns fun _ => trivial).bind fun f' _ => harg.bind fun v hv =>
      returns_env.bind fun _ heq => ?_
    subst heq hv
    have hunfold := Eval.restores_unfoldCall (restores_eval d) env f' (.lit ltag l) tag.span
    refine (hunfold.returns fun _ => trivial).bind fun r _ => ?_
    simp only [hr, Eval.keptCallee]
    refine (returns_keptName henv hr ftag f).bind fun k hk => (returns_tagAt _).bind fun t ht => ?_
    exact returns_pure ⟨t, ht, hk ▸ rfl⟩

/-- What is checked is the same call, with another counter. -/
theorem Node.IsKnownCall.preserves (h₁ : s₁.env.IsFresh store) (h₂ : s₂.env.IsFresh store)
    (hr : s₂.env.resolve = false) (hn : n.IsKnownCall store) (hs : s₁.Share s₃ n)
    (hcheck : (check depth₁ n).runOn s₁ = (.ok ty, t₁))
    (heval : (eval depth₂ n).runOn s₂ = (.ok v, t₂)) : s₃.PassesAs v ty := by
  obtain ⟨htyped, tag, ftag, f, ltag, l, rfl⟩ := hn
  obtain ⟨henv, c, hstore, hold, hle₁, hle₃⟩ := hs
  have hcompatible := (htyped.preserves h₁ h₂ (henv ▸ h₁) hcheck heval depth₁).1
  obtain ⟨t, ht, rfl⟩ := of_returns (returns_knownCall h₂ hr tag ftag ltag f l depth₂) heval
  have hok := check_isOk_agrees hstore hold henv hle₁ hle₃ depth₁
  rw [hcheck, ← check_call_congr ht] at hok
  obtain ⟨ty', t₃, hrun⟩ := runOn_of_isOk hok
  exact ⟨ty', t₃, ⟨depth₁, fun d hd => (approximates_check hd _).runOn_ok hrun⟩,
    hcompatible ty' (congrArg Prod.fst hrun)⟩

/-! ## Type preservation -/

/-- If a program passes the checker, and evaluates to a value, then the value passes the checker with a
compatible type, if it is first-order, if it is a call of a first-order function literal, if its
recursion is guarded, if names are resolved and it is a scalar, or if names are kept and it calls a
definition with a literal. If it is simply typed, the value may also have no type that is settled. -/
theorem eval_preserves_type (h₁ : s₁.env.IsFresh store) (h₂ : s₂.env.IsFresh store)
    (h₃ : s₃.env.IsFresh store) (hcheck : (check depth₁ n).runOn s₁ = (.ok ty, t₁))
    (heval : (eval depth₂ n).runOn s₂ = (.ok v, t₂)) :
    (n.IsFirstOrder store s₂.nodes.next ∨ n.IsApplication store ∨ n.IsGuarded store s₂.nodes.next ∨
      s₂.env.resolve = true ∧ n.IsScalar store ∨
      s₂.env.resolve = false ∧ n.IsKnownCall store ∧ s₁.Share s₃ n → s₃.PassesAs v ty) ∧
    (n.IsSimplyTyped store → ∀ d,
      (∀ ty', ((check d v).runOn s₃).1 = .ok ty' → compatible ty ty' = true) ∧
      ∀ f, ((check d v).runOn s₃).1 = .error f → SimplyTyped.Unsettled f) := by
  refine ⟨?_, fun hn => hn.preserves h₁ h₂ h₃ hcheck heval⟩
  rintro (hn | hn | hn | ⟨hr, hn⟩ | ⟨hr, hn, hs⟩)
  · exact hn.preserves h₁ h₂ h₃ hcheck heval
  · exact hn.preserves h₁ h₂ h₃ hcheck heval
  · exact hn.preserves h₁ h₂ h₃ hcheck heval
  · exact hn.preserves h₁ h₂ hr hcheck heval
  · exact hn.preserves h₁ h₂ hr hs hcheck heval

end

/-! ## Programs that pass -/

/-- The definitions `limit = 3` and `succ = @p(Number) p + 1`. -/
def stepDefinitions : Definitions :=
  ⟨[("limit", .lit ⟨0, .builtin⟩ (.number 3)),
    ("succ", .func ⟨1, .builtin⟩ ⟨.builtin, "p", .ident ⟨2, .builtin⟩ "Number"⟩
      [.binOp ⟨3, .builtin⟩ .add (.ident ⟨4, .builtin⟩ "p") (.lit ⟨5, .builtin⟩ (.number 1))])]⟩

/-- `@y(Number) { z = succ(y); if z < limit then { w = succ(z); w } else z }` -/
def stepProgram : Node :=
  .func ⟨6, .builtin⟩ ⟨.builtin, "y", .ident ⟨7, .builtin⟩ "Number"⟩
    [.assign ⟨8, .builtin⟩ (.ident ⟨9, .builtin⟩ "z")
      (.call ⟨10, .builtin⟩ (.ident ⟨11, .builtin⟩ "succ") (.ident ⟨12, .builtin⟩ "y")) false none,
    .ifElse ⟨13, .builtin⟩
      (.binOp ⟨14, .builtin⟩ .lt (.ident ⟨15, .builtin⟩ "z") (.ident ⟨16, .builtin⟩ "limit"))
      [.block ⟨17, .builtin⟩
        [.assign ⟨18, .builtin⟩ (.ident ⟨19, .builtin⟩ "w")
          (.call ⟨20, .builtin⟩ (.ident ⟨21, .builtin⟩ "succ") (.ident ⟨22, .builtin⟩ "z")) false none,
        .ident ⟨23, .builtin⟩ "w"]]
      [.ident ⟨24, .builtin⟩ "z"]]

theorem isFirstOrder_stepProgram : stepProgram.IsFirstOrder stepDefinitions 30 := by
  have hnumber (tag : Tag) : stepDefinitions.Declares (.ident tag "Number") .number :=
    .name (b := .number) tag rfl rfl
  have hcall {p : NodeId → Prop} {Γ : List (Name × Unit)} {x : Name} (tag ftag xtag : Tag)
      (hp : p 1) (hx : Γ.lookup x = some ()) (hparam : Γ.lookup "p" = none) :
      FirstOrder.Code (fun _ => ()) stepDefinitions (.source p) Γ
        (.call tag (.ident ftag "succ") (.ident xtag x)) () := by
    refine .call (b := .number) tag ftag (.var _ hx) rfl hp (hnumber _) hparam ⟨rfl, rfl⟩ ?_
    exact .last (.code (.binOp _ (by decide) (.var _ rfl) (.lit _ _)))
  refine ⟨.fn (.data ()), .func (b := .number) _ (by decide) (hnumber _) rfl ⟨rfl, rfl⟩ ?_⟩
  refine .bind (a := ()) _ _ (hcall _ _ _ (by decide) rfl rfl) rfl ⟨rfl, rfl⟩ (.last (.code ?_))
  refine .ifElse _ (.binOp _ (by decide) (.var _ rfl) (.const _ rfl (by decide) (.lit _ _))) ?_
    (.var _ rfl)
  refine .block _ (.bind (a := ()) _ _ (hcall _ _ _ (by decide) rfl rfl) rfl ⟨rfl, rfl⟩ ?_)
  exact .last (.code (.var _ rfl))

/-- `n * fact(n - 1)` -/
def factStep : Node :=
  .binOp ⟨0, .builtin⟩ .mul (.ident ⟨1, .builtin⟩ "n")
    (.call ⟨2, .builtin⟩ (.ident ⟨3, .builtin⟩ "fact")
      (.binOp ⟨4, .builtin⟩ .sub (.ident ⟨5, .builtin⟩ "n") (.lit ⟨6, .builtin⟩ (.number 1))))

/-- `if n == 0 then 1 else n * fact(n - 1)` -/
def factBody : Node :=
  .ifElse ⟨7, .builtin⟩
    (.binOp ⟨8, .builtin⟩ .eq (.ident ⟨9, .builtin⟩ "n") (.lit ⟨10, .builtin⟩ (.number 0)))
    [.lit ⟨11, .builtin⟩ (.number 1)] [factStep]

def fact : Node :=
  .func ⟨12, .builtin⟩ ⟨.builtin, "n", .ident ⟨13, .builtin⟩ "Number"⟩ [factBody]

def factDefinitions : Definitions := ⟨[("fact", fact)]⟩

/-- `@y(Number) fact(y)` -/
def factOfParam : Node :=
  .func ⟨14, .builtin⟩ ⟨.builtin, "y", .ident ⟨15, .builtin⟩ "Number"⟩
    [.call ⟨16, .builtin⟩ (.ident ⟨17, .builtin⟩ "fact") (.ident ⟨18, .builtin⟩ "y")]

/-- `fact(3)` -/
def factOfThree : Node :=
  .call ⟨19, .builtin⟩ (.ident ⟨20, .builtin⟩ "fact") (.lit ⟨21, .builtin⟩ (.number 3))

/-- `@x(Number) x + 1` -/
def succLiteral : Node :=
  .func ⟨23, .builtin⟩ ⟨.builtin, "x", .ident ⟨24, .builtin⟩ "Number"⟩
    [.binOp ⟨25, .builtin⟩ .add (.ident ⟨26, .builtin⟩ "x") (.lit ⟨27, .builtin⟩ (.number 1))]

/-- `(@x(Number) x + 1)(4)` -/
def succOfFour : Node := .call ⟨22, .builtin⟩ succLiteral (.lit ⟨28, .builtin⟩ (.number 4))

section

open GuardedRecursion

/-- All is about numbers, and there is one function, of rank 1. -/
def factGrading : Grading :=
  ⟨factDefinitions, fun _ => .number, (· = "fact"), fun _ => 1, fun _ => True, fun _ => .number⟩

theorem typed_param (tag : Tag) :
    FirstOrder.Typed factDefinitions .residual [("n", .number)] (.ident tag "n") .number := .var tag rfl

/-- The call is of the rank of its own function, so it may be void. -/
theorem graded_factStep {H : Name → Prop} (hn : H "n") :
    Graded factGrading [("n", .number)] H true 1 factStep .number := by
  refine .binOp _ (by decide) (.plain (typed_param _)) ?_
  refine .call (ρ := factGrading) (g := "fact") _ _ rfl rfl ?_ (fun _ => .lhs _ _ _ (.var _ hn))
    (Nat.le_refl _) fun hheld => by cases hheld
  exact .binOp _ (by decide) (typed_param _) (.lit _ (.number 1))

/-- The branch hangs on the parameter, and its other arm has a type. -/
theorem graded_factBody {H : Name → Prop} (hn : H "n") :
    Graded factGrading [("n", .number)] H false 1 factBody .number := by
  have hcond : FirstOrder.Typed factDefinitions .residual [("n", .number)] (.binOp ⟨8, .builtin⟩ .eq
      (.ident ⟨9, .builtin⟩ "n") (.lit ⟨10, .builtin⟩ (.number 0))) .bool :=
    .binOp _ (by decide) (typed_param _) (.lit _ _)
  exact .ifElse _ (.plain hcond) (.plain (.lit _ (.number 1))) (graded_factStep hn) (.inl rfl)
    (.inr (.inr ⟨hcond, .lhs _ _ _ (.var _ hn)⟩))

theorem isSound_factGrading : factGrading.IsSound where
  body := by
    rintro g d t param body rfl hg
    cases hg
    exact ⟨.name (b := .number) _ rfl rfl, ⟨rfl, rfl⟩, _, rfl, graded_factBody ⟨trivial, rfl⟩⟩
  rank_eq _ _ _ _ _ := rfl

theorem lt_of_callable {g : Name} {d : DefId} {f : Node} (hg : factGrading.callable g)
    (h : factDefinitions.lookup g = some (d, f)) : f.id < 30 := by
  obtain rfl : g = "fact" := hg
  cases h
  decide

theorem isGuarded_fact : fact.IsGuarded factDefinitions 30 := by
  refine ⟨factGrading, 1, .fn (.data .number), rfl, isSound_factGrading, lt_of_callable, ?_⟩
  exact .func _ (by decide) (fun _ _ _ => Nat.le_refl _) (.name (b := .number) _ rfl rfl) rfl ⟨rfl, rfl⟩
    (.code (graded_factBody rfl))

theorem isGuarded_factOfParam : factOfParam.IsGuarded factDefinitions 30 := by
  refine ⟨factGrading, 2, .fn (.data .number), rfl, isSound_factGrading, lt_of_callable, ?_⟩
  refine .func _ (by decide) (fun hg h hid => ?_) (.name (b := .number) _ rfl rfl) rfl ⟨rfl, rfl⟩
    (.code (.call (ρ := factGrading) (g := "fact") _ _ rfl rfl (.var _ rfl) (fun _ => .var _ rfl)
      (by decide) fun _ => by decide))
  obtain rfl : _ = "fact" := hg
  cases h
  cases hid

end

section

open SimplyTyped

/-- All is about numbers, and there is one function. -/
def factSignature : Signature where
  store := factDefinitions
  use x := if x = "fact" then some (.call (.builtin .number) (.builtin .number)) else none
  var _ := .builtin .number
  hasField _ _ := False
  field _ _ := .builtin .number
  members _ := []
  captured _ := False
  loops := False
  var_suffixed _ _ := rfl
  captured_suffixed _ _ := not_false

theorem use_fact {x : Name} {u : Use} (h : factSignature.use x = some u) :
    x = "fact" ∧ u = .call (.builtin .number) (.builtin .number) := by
  have heq : (if x = "fact" then some (Use.call (.builtin .number) (.builtin .number)) else none) =
    some u := h
  split at heq
  · cases heq
    exact ⟨‹_›, rfl⟩
  · cases heq

theorem isSound_factSignature : factSignature.IsSound where
  type h := by cases (use_fact h).2
  value h := by cases (use_fact h).2
  call h := by
    obtain ⟨rfl, heq⟩ := use_fact h
    cases heq
    refine ⟨_, _, _, _, rfl, rfl, .builtin (b := .number) _ rfl, ⟨rfl, rfl⟩, not_false, .last ?_⟩
    refine .ifElse _ (.binOp _ (by decide) (.var _ (.inr rfl)) (.lit _ (.number 0)))
      (.last (.lit _ (.number 1))) (.last ?_)
    exact .binOp _ (by decide) (.var _ (.inr rfl)) (.callDefined _ _ rfl
      (.binOp _ (by decide) (.var _ (.inr rfl)) (.lit _ (.number 1))))

theorem isStatic_factSignature : factSignature.IsStatic := by
  intro x τ d n h
  cases (use_fact h).2

/-- The call of a definition. -/
theorem code_factOfThree : Code factSignature .bare .empty factOfThree (.builtin .number) :=
  .callDefined _ _ rfl (.lit _ (.number 3))

theorem isScalar_factOfThree : factOfThree.IsScalar factDefinitions :=
  ⟨factSignature, .bare, .number, rfl, isSound_factSignature, isStatic_factSignature, not_false,
    Way.bare_ne_blocked, by decide, code_factOfThree⟩

theorem isKnownCall_factOfThree : factOfThree.IsKnownCall factDefinitions :=
  ⟨⟨factSignature, .bare, _, rfl, isSound_factSignature, Way.bare_ne_blocked, .code code_factOfThree⟩,
    _, _, _, _, _, rfl⟩

end

theorem isFirstOrder_succLiteral : succLiteral.IsFirstOrder factDefinitions 30 :=
  ⟨.fn (.data ()), .func _ (by decide) (.name (b := .number) _ rfl rfl) rfl ⟨rfl, rfl⟩
    (.last (.code (.binOp _ (by decide) (.var _ rfl) (.lit _ (.number 1)))))⟩

theorem isApplication_succOfFour : succOfFour.IsApplication factDefinitions :=
  ⟨(), .call _ _ (.name (b := .number) _ rfl rfl) ⟨rfl, rfl⟩
    (.last (.code (.binOp _ (by decide) (.var _ rfl) (.lit _ (.number 1))))) (.lit _ (.number 4))⟩

theorem share_factOfThree :
    (freshMachine factDefinitions true).Share (freshMachine factDefinitions true) factOfThree := by
  have hfact : fact.Older 30 := fun r hr => by
    have hid (i : Nat) (hi : i < 30) : r.id i = i := hr.id_eq i hi
    simp [fact, factBody, factStep, Node.relabel, Node.relabelDecl, Tag.relabel, hid, hr.span_eq]
  have hcall : factOfThree.Older 30 := fun r hr => by
    have hid (i : Nat) (hi : i < 30) : r.id i = i := hr.id_eq i hi
    simp [factOfThree, Node.relabel, Tag.relabel, hid, hr.span_eq]
  have hready : (freshMachine factDefinitions true).env.Ready 30 :=
    (isFresh_freshMachine _ _).ready (by simpa [factDefinitions] using hfact) (List.forall_mem_nil _)
  exact ⟨rfl, 30, hready.older, hcall, Nat.le_refl _, Nat.le_refl _⟩

/-- Recursion that is guarded, calls of a definition and of a function literal, and aliases: the
programs are known to pass, and so is what they evaluate to, in either mode. -/
theorem eval_preserves_type_fact :
    let Preserved (store : Definitions) (n : Node) (resolve : Bool) : Prop := ∃ ty v t₁ t₂,
      (check 20 n).runOn (freshMachine store true) = (.ok ty, t₁) ∧
      (eval 20 n).runOn (freshMachine store resolve) = (.ok v, t₂) ∧
      (freshMachine store true).PassesAs v ty
    ∀ resolve, Preserved factDefinitions fact resolve ∧ Preserved factDefinitions succLiteral resolve ∧
      Preserved factDefinitions factOfThree resolve ∧ Preserved factDefinitions succOfFour resolve ∧
      Preserved factDefinitions factOfParam resolve ∧ Preserved stepDefinitions stepProgram resolve := by
  intro Preserved resolve
  have hpreserved {store : Definitions} {n : Node}
      (hn : n.IsFirstOrder store 30 ∨ n.IsApplication store ∨ n.IsGuarded store 30 ∨
        resolve = true ∧ n.IsScalar store ∨ resolve = false ∧ n.IsKnownCall store ∧
          (freshMachine store true).Share (freshMachine store true) n)
      (hcheck : ((check 20 n).runOn (freshMachine store true)).1.isOk = true)
      (heval : ∀ r, ((eval 20 n).runOn (freshMachine store r)).1.isOk = true) :
      Preserved store n resolve := by
    obtain ⟨ty, t₁, hcheck⟩ := runOn_of_isOk hcheck
    obtain ⟨v, t₂, heval⟩ := runOn_of_isOk (heval resolve)
    exact ⟨ty, v, t₁, t₂, hcheck, heval, (eval_preserves_type (isFresh_freshMachine _ _)
      (isFresh_freshMachine _ _) (isFresh_freshMachine _ true) hcheck heval).1 hn⟩
  have hcall : resolve = true ∧ factOfThree.IsScalar factDefinitions ∨ resolve = false ∧
      factOfThree.IsKnownCall factDefinitions ∧
      (freshMachine factDefinitions true).Share (freshMachine factDefinitions true) factOfThree := by
    cases resolve with
    | true => exact .inl ⟨rfl, isScalar_factOfThree⟩
    | false => exact .inr ⟨rfl, isKnownCall_factOfThree, share_factOfThree⟩
  refine ⟨?_, ?_, ?_, ?_, ?_, ?_⟩
  · exact hpreserved (.inr (.inr (.inl isGuarded_fact))) (by decide +kernel) (by decide +kernel)
  · exact hpreserved (.inl isFirstOrder_succLiteral) (by decide +kernel) (by decide +kernel)
  · exact hpreserved (.inr (.inr (.inr hcall))) (by decide +kernel) (by decide +kernel)
  · exact hpreserved (.inr (.inl isApplication_succOfFour)) (by decide +kernel) (by decide +kernel)
  · exact hpreserved (.inr (.inr (.inl isGuarded_factOfParam))) (by decide +kernel) (by decide +kernel)
  · exact hpreserved (.inl isFirstOrder_stepProgram) (by decide +kernel) (by decide +kernel)

/-- `@x(Any) [if false then x else true, "s"]` -/
def mixedList : Node :=
  .func ⟨0, .builtin⟩ ⟨.builtin, "x", .ident ⟨1, .builtin⟩ "Any"⟩
    [.list ⟨2, .builtin⟩
      [.ifElse ⟨3, .builtin⟩ (.lit ⟨4, .builtin⟩ (.bool false)) [.ident ⟨5, .builtin⟩ "x"]
        [.lit ⟨6, .builtin⟩ (.bool true)],
      .lit ⟨7, .builtin⟩ (.string "s")]]

/-- `Any` takes everything, so the list passes as it stands. The branch that is taken is a `Bool`,
and then the list does not pass any more, in either mode. -/
theorem eval_loses_type :
    let Lost (resolve : Bool) : Prop := ∃ ty v t₁ t₂,
      (check 9 mixedList).runOn (freshMachine .empty true) = (.ok ty, t₁) ∧
      (eval 9 mixedList).runOn (freshMachine .empty resolve) = (.ok v, t₂) ∧
      ∀ depth, ((check depth v).runOn (freshMachine .empty true)).1.isOk = false
    Lost true ∧ Lost false := by
  intro Lost
  have hlost (resolve : Bool) : Lost resolve := by
    have hcheck : ((check 9 mixedList).runOn (freshMachine .empty true)).1.isOk = true := by
      decide +kernel
    have heval : ((eval 9 mixedList).runOn (freshMachine .empty resolve)).1.isOk = true := by
      cases resolve <;> decide +kernel
    have hfail : ((eval 9 mixedList).runOn (freshMachine .empty resolve)).1.toOption.all fun v =>
        match ((check 9 v).runOn (freshMachine .empty true)).1 with
        | .error f => f.isOrdinary
        | .ok _ => false := by cases resolve <;> decide +kernel
    obtain ⟨ty, t₁, hcheck⟩ := runOn_of_isOk hcheck
    obtain ⟨v, t₂, heval⟩ := runOn_of_isOk heval
    simp only [heval, Except.toOption, Option.all_some] at hfail
    cases hrun : ((check 9 v).runOn (freshMachine .empty true)).1 with
    | ok ty' =>
      rw [hrun] at hfail
      cases hfail
    | error f =>
      rw [hrun] at hfail
      exact ⟨ty, v, t₁, t₂, hcheck, heval, check_fails hrun hfail⟩
  exact ⟨hlost true, hlost false⟩

end Residual
