/-
Simply typed programs. Types are the built-in ones, records, enums and functions; a signature tells the
type of each local name, wherever it is bound, and what each definition is for. Functions are values,
definitions may call themselves and each other, and parameters may share their names.

The judgement on code also says how it treats aliases and how functions refer to names of their
surroundings, since evaluation moves code. A function literal refers to its own parameter, to
definitions, and to those parameters of the whole program that are set apart as captured. Aliases stand
in blocks; where code may be moved there are none.
-/
import Residual.Proofs.FirstOrder
import Residual.Proofs.FreshName

namespace Residual.SimplyTyped

/-! ## Types -/

inductive Ty where
  | builtin (b : Builtin)
  | record (id : TypeId)
  | enum (id : TypeId)
  | fn (dom cod : Ty)

/-- What a definition is for. A function that is to be called only may have aliases in its body. -/
inductive Use where
  | type (τ : Ty)
  | value (τ : Ty)
  | call (dom cod : Ty)

/-- What is known of the names of a program. A name that stands in for another one, where that is taken,
has its type. -/
structure Signature where
  store : Definitions
  use : Name → Option Use
  var : Name → Ty
  hasField : TypeId → Name → Prop
  field : TypeId → Name → Ty
  members : TypeId → List Name
  /-- The parameters of the program that function literals may refer to. -/
  captured : Name → Prop
  /-- Whether there may be loops. -/
  loops : Prop
  var_suffixed : ∀ x k, var (Env.suffixed x k) = var x
  captured_suffixed : ∀ x k, ¬ captured (Env.suffixed x k)

variable {σ : Signature}

mutual

/-- The reduced nodes of a type. -/
inductive IsType (σ : Signature) : Node → Ty → Prop where
  | builtin (tag : Tag) (b : Builtin) : IsType σ (.builtin tag b) (.builtin b)
  | record {id : TypeId} {fields : List (Decl Node)} (tag : Tag)
    (hfields : ∀ d ∈ fields, Denotes σ d.ty (σ.field id d.name))
    (hnames : ∀ f, σ.hasField id f ↔ ∃ d ∈ fields, d.name = f) :
    IsType σ (.record tag id fields none) (.record id)
  | enum (tag : Tag) (id : TypeId) : IsType σ (.enum tag id (σ.members id)) (.enum id)
  | fn {dom cod : Node} {δ κ : Ty} (tag : Tag) (id : TypeId) (hdom : IsType σ dom δ)
    (hcod : IsType σ cod κ) : IsType σ (.fnType tag id dom cod) (.fn δ κ)

/-- The expressions that stand for a type. -/
inductive Denotes (σ : Signature) : Node → Ty → Prop where
  | type {n : Node} {τ : Ty} (h : IsType σ n τ) : Denotes σ n τ
  | builtin {b : Builtin} (tag : Tag) (h : σ.store.lookup b.name = none) :
    Denotes σ (.ident tag b.name) (.builtin b)
  | defined {x : Name} {τ : Ty} (tag : Tag) (h : σ.use x = some (.type τ)) :
    Denotes σ (.ident tag x) τ
  | fn {dom cod : Node} {δ κ : Ty} (tag : Tag) (id : TypeId) (hdom : Denotes σ dom δ)
    (hcod : Denotes σ cod κ) : Denotes σ (.fnType tag id dom cod) (.fn δ κ)

end

namespace IsType

variable {n m : Node} {τ δ κ : Ty}

theorem isType (h : IsType σ n τ) : n.isType = true := by cases h <;> rfl

theorem isFunc (h : IsType σ n τ) : n.isFunc = false := by cases h <;> rfl

theorem isPlaceholder (h : IsType σ n τ) : n.isPlaceholder = false := by cases h <;> rfl

theorem exists_fnType (h : IsType σ n (.fn δ κ)) :
    ∃ tag id dom cod, n = .fnType tag id dom cod ∧ IsType σ dom δ ∧ IsType σ cod κ := by
  cases h with
  | fn tag id hdom hcod => exact ⟨tag, id, _, _, rfl, hdom, hcod⟩

/-- Two nodes of one type are compatible. -/
theorem compatible : ∀ {n m : Node} {τ : Ty}, IsType σ n τ → IsType σ m τ →
    Residual.compatible n m = true
  | _, _, _, .builtin _ b, .builtin .. => by cases b <;> rfl
  | _, _, _, .record .., .record .. => beq_self_eq_true _
  | _, _, _, .enum .., .enum .. => beq_self_eq_true _
  | _, _, _, .fn _ _ _ h, .fn _ _ _ h' => by
    rw [Residual.compatible]
    exact h.compatible h'

end IsType

/-! ## Code -/

/-- A set of names. -/
abbrev Scope := Name → Prop

def Scope.empty : Scope := fun _ => False

/-- The names with one more. -/
def Scope.insert (Γ : Scope) (x : Name) : Scope := fun y => Γ y ∨ y = x

/-- Those of the names that function literals may refer to. -/
def Signature.outer (σ : Signature) (Γ : Scope) : Scope := fun x => Γ x ∧ σ.captured x

/-- Names that are made up where a name is taken. -/
def IsMadeUp (x : Name) : Prop := ∃ y k, x = Env.suffixed y k

/-- How code treats aliases: it has none, or they stand in blocks; where it is tidy, the names of
aliases are not in use where they are bound, and nothing that is moved refers to them. -/
inductive Way where
  | bare
  | blocked
  | tidy
  deriving DecidableEq

namespace Way

/-- The way of what stands in function literals. -/
def inner : Way → Way
  | blocked => blocked
  | bare | tidy => bare

theorem bare_ne_tidy : bare ≠ tidy := by decide

theorem blocked_ne_tidy : blocked ≠ tidy := by decide

theorem bare_ne_blocked : bare ≠ blocked := by decide

theorem tidy_ne_blocked : tidy ≠ blocked := by decide

theorem inner_ne_tidy (w : Way) : w.inner ≠ tidy := by cases w <;> decide

/-- Whether an alias may be bound. -/
def Binds (w : Way) (Γ : Scope) (x : Name) (transparent : Bool) : Prop :=
  match w with
  | bare => False
  | blocked => True
  | tidy => ¬ Γ x ∧ ¬ IsMadeUp x ∧ transparent = false

end Way

mutual

/-- An expression of a type, given the names in scope. -/
inductive Code (σ : Signature) : Way → Scope → Node → Ty → Prop where
  | lit {w : Way} {Γ : Scope} (tag : Tag) (l : Literal) : Code σ w Γ (.lit tag l) (.builtin l.builtin)
  | var {w : Way} {Γ : Scope} {x : Name} (tag : Tag) (hx : Γ x) :
    Code σ w Γ (.ident tag x) (σ.var x)
  | value {w : Way} {Γ : Scope} {x : Name} {τ : Ty} (tag : Tag) (hx : σ.use x = some (.value τ)) :
    Code σ w Γ (.ident tag x) τ
  | list {w : Way} {Γ : Scope} {items : List Node} {τ : Ty} (tag : Tag)
    (h : ∀ n ∈ items, Code σ w Γ n τ) : Code σ w Γ (.list tag items) (.builtin .list)
  | binOp {w : Way} {Γ : Scope} {op : Operator} {lhs rhs : Node} (tag : Tag) (hop : op ≠ .dot)
    (hl : Code σ w Γ lhs (.builtin .number)) (hr : Code σ w Γ rhs (.builtin .number)) :
    Code σ w Γ (.binOp tag op lhs rhs) (.builtin (if op.isArithmetic then .number else .bool))
  | dot {w : Way} {Γ : Scope} {lhs : Node} {id : TypeId} {f : Name} (tag ftag : Tag)
    (hl : Code σ w Γ lhs (.record id)) (hf : σ.hasField id f) :
    Code σ w Γ (.binOp tag .dot lhs (.ident ftag f)) (σ.field id f)
  | ifElse {w : Way} {Γ : Scope} {c : Node} {thenBody elseBody : List Node} {τ : Ty} (tag : Tag)
    (hc : Code σ w Γ c (.builtin .bool)) (ht : Items σ w false Γ thenBody τ)
    (he : Items σ w false Γ elseBody τ) : Code σ w Γ (.ifElse tag c thenBody elseBody) τ
  | whileDo {w : Way} {Γ : Scope} {c : Node} {body : List Node} {τ : Ty} (tag : Tag) (hloops : σ.loops)
    (hc : Code σ w Γ c (.builtin .bool)) (hb : Items σ w false Γ body τ) :
    Code σ w Γ (.whileDo tag c body) τ
  | matchOn {w : Way} {Γ : Scope} {scrutinee : Node} {cases : List (Case Node)} {τ κ : Ty} (tag : Tag)
    (hs : Code σ w Γ scrutinee τ)
    (hp : ∀ c ∈ cases, c.pattern.isWildcard = false → Code σ w Γ c.pattern τ)
    (hb : ∀ c ∈ cases, Items σ w false Γ c.body κ)
    (hw : ∃ c ∈ cases, c.pattern.isWildcard = true) : Code σ w Γ (.matchOn tag scrutinee cases) κ
  | block {w : Way} {Γ : Scope} {items : List Node} {τ : Ty} (tag : Tag)
    (h : Items σ w true Γ items τ) : Code σ w Γ (.block tag items) τ
  | inst {w : Way} {Γ : Scope} {id : TypeId} {template : Node} {body : List Node} (tag : Tag)
    (ht : Denotes σ template (.record id)) (hb : ∀ n ∈ body, Field σ w Γ id n)
    (hall : ∀ f, σ.hasField id f → (Node.fieldValue? body f).isSome = true) :
    Code σ w Γ (.inst tag template body) (.record id)
  | member {w : Way} {Γ : Scope} {id : TypeId} {template : Node} {m : Name} (tag mtag : Tag)
    (ht : Denotes σ template (.enum id)) (hm : m ∈ σ.members id) :
    Code σ w Γ (.inst tag template [.ident mtag m]) (.enum id)
  | func {w : Way} {Γ : Scope} {param : Decl Node} {body : List Node} {κ : Ty} (tag : Tag)
    (hty : Denotes σ param.ty (σ.var param.name)) (hfree : σ.store.IsFree param.name)
    (hparam : ¬ σ.captured param.name)
    (hbody : Items σ w.inner false ((σ.outer Γ).insert param.name) body κ) :
    Code σ w Γ (.func tag param body) (.fn (σ.var param.name) κ)
  /-- a call of a value; tidy code names it -/
  | call {w : Way} {Γ : Scope} {callee arg : Node} {δ κ : Ty} (tag : Tag)
    (hname : w = .tidy → callee.ident?.isSome = true) (hf : Code σ w Γ callee (.fn δ κ))
    (ha : Code σ w Γ arg δ) : Code σ w Γ (.call tag callee arg) κ
  /-- a call of what a function literal might stand for -/
  | callOuter {w : Way} {Γ : Scope} {callee arg : Node} {δ κ : Ty} (tag : Tag)
    (hf : Code σ .bare (σ.outer Γ) callee (.fn δ κ)) (ha : Code σ w Γ arg δ) :
    Code σ w Γ (.call tag callee arg) κ
  | callDefined {w : Way} {Γ : Scope} {g : Name} {arg : Node} {δ κ : Ty} (tag gtag : Tag)
    (hg : σ.use g = some (.call δ κ)) (ha : Code σ w Γ arg δ) :
    Code σ w Γ (.call tag (.ident gtag g) arg) κ

/-- A sequence that ends in an expression of a type. The flag tells whether aliases may stand in it. -/
inductive Items (σ : Signature) : Way → Bool → Scope → List Node → Ty → Prop where
  | last {w : Way} {a : Bool} {Γ : Scope} {n : Node} {τ : Ty} (h : Code σ w Γ n τ) :
    Items σ w a Γ [n] τ
  | next {w : Way} {a : Bool} {Γ : Scope} {n : Node} {rest : List Node} {κ τ : Ty}
    (h : Code σ w Γ n κ) (hrest : Items σ w a Γ rest τ) : Items σ w a Γ (n :: rest) τ
  | bind {w : Way} {Γ : Scope} {x : Name} {value : Node} {transparent : Bool} {link : Option DefId}
    {rest : List Node} {τ : Ty} (tag xtag : Tag) (hx : w.Binds Γ x transparent)
    (hfree : σ.store.IsFree x) (hcap : ¬ σ.captured x) (h : Code σ w Γ value (σ.var x))
    (hrest : Items σ w true (Γ.insert x) rest τ) :
    Items σ w true Γ (.assign tag (.ident xtag x) value transparent link :: rest) τ

/-- An item of the body of a record instance. -/
inductive Field (σ : Signature) : Way → Scope → TypeId → Node → Prop where
  | mk {w : Way} {Γ : Scope} {id : TypeId} {f : Name} {value : Node} {transparent : Bool}
    {link : Option DefId} (tag ftag : Tag) (hf : σ.hasField id f)
    (h : Code σ w Γ value (σ.field id f)) :
    Field σ w Γ id (.assign tag (.ident ftag f) value transparent link)

end

namespace Code

variable {w : Way} {Γ : Scope} {n : Node} {τ : Ty}

theorem isAlias (h : Code σ w Γ n τ) : n.isAlias = false := by cases h <;> rfl

theorem isPlaceholder (h : Code σ w Γ n τ) : n.isPlaceholder = false := by cases h <;> rfl

theorem boundName? (h : Code σ w Γ n τ) : n.boundName? = none := by cases h <;> rfl

/-- A name is in scope, or it is that of a definition. -/
theorem of_ident {tag : Tag} {x : Name} (h : Code σ w Γ (.ident tag x) τ) :
    Γ x ∧ σ.var x = τ ∨ σ.use x = some (.value τ) := by
  cases h with
  | var _ hx => exact .inl ⟨hx, rfl⟩
  | value _ hx => exact .inr hx

theorem of_func {tag : Tag} {param : Decl Node} {body : List Node} {δ κ : Ty}
    (h : Code σ w Γ (.func tag param body) (.fn δ κ)) :
    δ = σ.var param.name ∧ Denotes σ param.ty δ ∧ σ.store.IsFree param.name ∧
      ¬ σ.captured param.name ∧ Items σ w.inner false ((σ.outer Γ).insert param.name) body κ := by
  cases h with
  | func _ hty hfree hparam hbody => exact ⟨rfl, hty, hfree, hparam, hbody⟩

end Code

theorem exists_of_isFunc {f : Node} (h : f.isFunc = true) :
    ∃ tag param body, f = .func tag param body := by
  cases f with
  | func tag param body => exact ⟨tag, param, body, rfl⟩
  | _ => cases h

theorem Items.ne_nil {w : Way} {a : Bool} {Γ : Scope} {items : List Node} {τ : Ty}
    (h : Items σ w a Γ items τ) : items ≠ [] := by
  cases h <;> exact List.cons_ne_nil _ _

/-! ## Larger scopes and freer ways -/

theorem Scope.insert_mono {Γ Δ : Scope} (h : ∀ x, Γ x → Δ x) (y : Name) :
    ∀ x, Γ.insert y x → Δ.insert y x := fun x => .imp_left (h x)

theorem Signature.outer_mono {Γ Δ : Scope} (h : ∀ x, Γ x → Δ x) :
    ∀ x, σ.outer Γ x → σ.outer Δ x := fun x => .imp_left (h x)

mutual

/-- More names in scope do no harm, unless the names of aliases must be new. -/
theorem Code.mono {w : Way} (hw : w ≠ .tidy) : ∀ {Γ Δ : Scope} {n : Node} {τ : Ty},
    (∀ x, Γ x → Δ x) → Code σ w Γ n τ → Code σ w Δ n τ
  | _, _, _, _, _, .lit tag l => .lit tag l
  | _, _, _, _, hΓ, .var tag hx => .var tag (hΓ _ hx)
  | _, _, _, _, _, .value tag hx => .value tag hx
  | _, _, _, _, hΓ, .list tag h => .list tag fun n hn => (h n hn).mono hw hΓ
  | _, _, _, _, hΓ, .binOp tag hop hl hr => .binOp tag hop (hl.mono hw hΓ) (hr.mono hw hΓ)
  | _, _, _, _, hΓ, .dot tag ftag hl hf => .dot tag ftag (hl.mono hw hΓ) hf
  | _, _, _, _, hΓ, .ifElse tag hc ht he =>
    .ifElse tag (hc.mono hw hΓ) (ht.mono hw hΓ) (he.mono hw hΓ)
  | _, _, _, _, hΓ, .whileDo tag hloops hc hb =>
    .whileDo tag hloops (hc.mono hw hΓ) (hb.mono hw hΓ)
  | _, _, _, _, hΓ, .matchOn tag hs hp hb hwild =>
    .matchOn tag (hs.mono hw hΓ) (fun c hc hn => (hp c hc hn).mono hw hΓ)
      (fun c hc => (hb c hc).mono hw hΓ) hwild
  | _, _, _, _, hΓ, .block tag h => .block tag (h.mono hw hΓ)
  | _, _, _, _, hΓ, .inst tag ht hb hall => .inst tag ht (fun n hn => (hb n hn).mono hw hΓ) hall
  | _, _, _, _, _, .member tag mtag ht hm => .member tag mtag ht hm
  | _, _, _, _, hΓ, .func tag hty hfree hparam hbody =>
    .func tag hty hfree hparam
      (hbody.mono w.inner_ne_tidy (Scope.insert_mono (Signature.outer_mono hΓ) _))
  | _, _, _, _, hΓ, .call tag hname hf ha => .call tag hname (hf.mono hw hΓ) (ha.mono hw hΓ)
  | _, _, _, _, hΓ, .callOuter tag hf ha =>
    .callOuter tag (Code.mono Way.bare_ne_tidy (Signature.outer_mono hΓ) hf) (ha.mono hw hΓ)
  | _, _, _, _, hΓ, .callDefined tag gtag hg ha => .callDefined tag gtag hg (ha.mono hw hΓ)

theorem Items.mono {w : Way} (hw : w ≠ .tidy) : ∀ {a : Bool} {Γ Δ : Scope} {items : List Node}
    {τ : Ty}, (∀ x, Γ x → Δ x) → Items σ w a Γ items τ → Items σ w a Δ items τ
  | _, _, _, _, _, hΓ, .last h => .last (h.mono hw hΓ)
  | _, _, _, _, _, hΓ, .next h hrest => .next (h.mono hw hΓ) (hrest.mono hw hΓ)
  | _, _, _, _, _, hΓ, .bind tag xtag hx hfree hcap h hrest =>
    have hx : w.Binds _ _ _ := by
      cases w with
      | bare => exact hx
      | blocked => trivial
      | tidy => exact absurd rfl hw
    .bind tag xtag hx hfree hcap (h.mono hw hΓ) (hrest.mono hw (Scope.insert_mono hΓ _))

theorem Field.mono {w : Way} (hw : w ≠ .tidy) : ∀ {Γ Δ : Scope} {id : TypeId} {n : Node},
    (∀ x, Γ x → Δ x) → Field σ w Γ id n → Field σ w Δ id n
  | _, _, _, _, hΓ, .mk tag ftag hf h => .mk tag ftag hf (h.mono hw hΓ)

end

mutual

/-- All code may be taken for code with aliases in blocks. -/
theorem Code.blocked : ∀ {w : Way} {Γ : Scope} {n : Node} {τ : Ty}, Code σ w Γ n τ →
    Code σ .blocked Γ n τ
  | _, _, _, _, .lit tag l => .lit tag l
  | _, _, _, _, .var tag hx => .var tag hx
  | _, _, _, _, .value tag hx => .value tag hx
  | _, _, _, _, .list tag h => .list tag fun n hn => (h n hn).blocked
  | _, _, _, _, .binOp tag hop hl hr => .binOp tag hop hl.blocked hr.blocked
  | _, _, _, _, .dot tag ftag hl hf => .dot tag ftag hl.blocked hf
  | _, _, _, _, .ifElse tag hc ht he => .ifElse tag hc.blocked ht.blocked he.blocked
  | _, _, _, _, .whileDo tag hloops hc hb => .whileDo tag hloops hc.blocked hb.blocked
  | _, _, _, _, .matchOn tag hs hp hb hwild => .matchOn tag hs.blocked
    (fun c hc hn => (hp c hc hn).blocked) (fun c hc => (hb c hc).blocked) hwild
  | _, _, _, _, .block tag h => .block tag h.blocked
  | _, _, _, _, .inst tag ht hb hall => .inst tag ht (fun n hn => (hb n hn).blocked) hall
  | _, _, _, _, .member tag mtag ht hm => .member tag mtag ht hm
  | _, _, _, _, .func tag hty hfree hparam hbody => .func tag hty hfree hparam hbody.blocked
  | _, _, _, _, .call tag _ hf ha =>
    .call tag (absurd · Way.blocked_ne_tidy) hf.blocked ha.blocked
  | _, _, _, _, .callOuter tag hf ha => .callOuter tag hf ha.blocked
  | _, _, _, _, .callDefined tag gtag hg ha => .callDefined tag gtag hg ha.blocked

theorem Items.blocked : ∀ {w : Way} {a : Bool} {Γ : Scope} {items : List Node} {τ : Ty},
    Items σ w a Γ items τ → Items σ .blocked a Γ items τ
  | _, _, _, _, _, .last h => .last h.blocked
  | _, _, _, _, _, .next h hrest => .next h.blocked hrest.blocked
  | _, _, _, _, _, .bind tag xtag _ hfree hcap h hrest =>
    .bind tag xtag trivial hfree hcap h.blocked hrest.blocked

theorem Field.blocked : ∀ {w : Way} {Γ : Scope} {id : TypeId} {n : Node}, Field σ w Γ id n →
    Field σ .blocked Γ id n
  | _, _, _, _, .mk tag ftag hf h => .mk tag ftag hf h.blocked

end

/-! ## Programs -/

mutual

/-- A program: code, or a function whose body ends in a program. -/
inductive Program (σ : Signature) (w : Way) : Scope → Node → Ty → Prop where
  | code {Γ : Scope} {n : Node} {τ : Ty} (h : Code σ w Γ n τ) : Program σ w Γ n τ
  | func {Γ : Scope} {param : Decl Node} {body : List Node} {κ : Ty} (tag : Tag)
    (hty : Denotes σ param.ty (σ.var param.name)) (hfree : σ.store.IsFree param.name)
    (hparam : σ.captured param.name → ¬ Γ param.name)
    (hbody : Body σ w (Γ.insert param.name) body κ) :
    Program σ w Γ (.func tag param body) (.fn (σ.var param.name) κ)

/-- A sequence of aliases and expressions that ends in a program. The names of the aliases are new. -/
inductive Body (σ : Signature) (w : Way) : Scope → List Node → Ty → Prop where
  | last {Γ : Scope} {n : Node} {τ : Ty} (h : Program σ w Γ n τ) : Body σ w Γ [n] τ
  | next {Γ : Scope} {n : Node} {rest : List Node} {κ τ : Ty} (h : Code σ w Γ n κ)
    (hrest : Body σ w Γ rest τ) : Body σ w Γ (n :: rest) τ
  | bind {Γ : Scope} {x : Name} {value : Node} {link : Option DefId} {rest : List Node} {τ : Ty}
    (tag xtag : Tag) (hx : ¬ Γ x) (hnew : ¬ IsMadeUp x) (hfree : σ.store.IsFree x)
    (hcap : ¬ σ.captured x) (h : Code σ w Γ value (σ.var x))
    (hrest : Body σ w (Γ.insert x) rest τ) :
    Body σ w Γ (.assign tag (.ident xtag x) value false link :: rest) τ

end

section

variable {w : Way} {Γ : Scope} {n : Node} {items : List Node} {τ : Ty}

theorem Program.isAlias (h : Program σ w Γ n τ) : n.isAlias = false := by
  cases h with
  | code h => exact h.isAlias
  | func => rfl

theorem Program.boundName? (h : Program σ w Γ n τ) : n.boundName? = none := by
  cases h with
  | code h => exact h.boundName?
  | func => rfl

theorem Body.ne_nil (h : Body σ w Γ items τ) : items ≠ [] := by
  cases h <;> exact List.cons_ne_nil _ _

end

/-- The definitions are what they are used for. -/
structure Signature.IsSound (σ : Signature) : Prop where
  type : ∀ {x τ}, σ.use x = some (.type τ) →
    ∃ d n, σ.store.lookup x = some (d, n) ∧ IsType σ n τ
  value : ∀ {x τ}, σ.use x = some (.value τ) →
    ∃ d n, σ.store.lookup x = some (d, n) ∧ Code σ .bare .empty n τ
  call : ∀ {x δ κ}, σ.use x = some (.call δ κ) → ∃ d tag param body,
    σ.store.lookup x = some (d, .func tag param body) ∧ δ = σ.var param.name ∧
    Denotes σ param.ty δ ∧ σ.store.IsFree param.name ∧ ¬ σ.captured param.name ∧
    Items σ .tidy true (Scope.empty.insert param.name) body κ

end Residual.SimplyTyped
