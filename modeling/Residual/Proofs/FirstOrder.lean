/-
First-order programs. Code computes data: numbers, truth values, strings and lists. Functions are no
values of code; they are defined at the top level and called by name, and a whole program may be a
function, or a function that returns one. A branch is a single expression, a match has a case for
everything else, no function is met inside itself, and no binder takes a name that already stands for
something where it is bound or where its function is called.

The judgements are stated over what is known of types. With `Builtin` they say that code is well
typed; with `Unit`, where all types are the same, they say no more than that it is first-order.
-/
import Residual.Check

namespace Residual

/-- The built-in types of data. -/
def Builtin.isData : Builtin → Bool
  | .bool | .number | .string | .list => true
  | .type | .function | .any => false

theorem Literal.isData_builtin (l : Literal) : l.builtin.isData = true := by cases l <;> rfl

theorem Operator.isData_result (op : Operator) :
    (if op.isArithmetic then Builtin.number else .bool).isData = true := by cases op <;> rfl

namespace Definitions

/-- A name that is neither defined nor built in. -/
def IsFree (store : Definitions) (x : Name) : Prop :=
  store.lookup x = none ∧ Builtin.ofName? x = none

/-- A type expression that stands for a type of data: the type itself, or its name. -/
inductive Declares (store : Definitions) : Node → Builtin → Prop where
  | builtin {b : Builtin} (tag : Tag) (h : b.isData = true) : Declares store (.builtin tag b) b
  | name {b : Builtin} (tag : Tag) (h : b.isData = true) (hb : store.lookup b.name = none) :
    Declares store (.ident tag b.name) b

theorem Declares.isData {store : Definitions} {ty : Node} {b : Builtin} (h : store.Declares ty b) :
    b.isData = true := by
  cases h <;> assumption

end Definitions

namespace FirstOrder

/-- The type of a program: that of data, or that of a function with the type of its result. -/
inductive Shape (τ : Type) where
  | data (a : τ)
  | fn (result : Shape τ)

/-- Source code may call the functions that have not been entered yet. Residual code has neither
calls nor blocks: all of them have been evaluated. -/
inductive Stage where
  | source (mayEnter : NodeId → Prop)
  | residual

/-- All functions may be entered. -/
abbrev Anybody : NodeId → Prop := fun _ => True

/-- No function is entered in code without calls. -/
abbrev Nobody : NodeId → Prop := fun _ => False

section

variable {τ : Type} (ty : Builtin → τ) (store : Definitions)

mutual

/-- An expression, given the types of the names in scope. -/
inductive Code : Stage → List (Name × τ) → Node → τ → Prop where
  | lit {g : Stage} {Γ : List (Name × τ)} (tag : Tag) (l : Literal) :
    Code g Γ (.lit tag l) (ty l.builtin)
  | var {g : Stage} {Γ : List (Name × τ)} {x : Name} {a : τ} (tag : Tag)
    (h : Γ.lookup x = some a) : Code g Γ (.ident tag x) a
  | const {p : NodeId → Prop} {Γ : List (Name × τ)} {x : Name} {d : DefId} {v : Node} {a : τ}
    (tag : Tag) (hx : store.lookup x = some (d, v)) (hp : p v.id) (hv : Code .residual [] v a) :
    Code (.source p) Γ (.ident tag x) a
  | list {g : Stage} {Γ : List (Name × τ)} {items : List Node} {a : τ} (tag : Tag)
    (h : ∀ e ∈ items, Code g Γ e a) : Code g Γ (.list tag items) (ty .list)
  | binOp {g : Stage} {Γ : List (Name × τ)} {op : Operator} {lhs rhs : Node} (tag : Tag)
    (hop : op ≠ .dot) (hl : Code g Γ lhs (ty .number)) (hr : Code g Γ rhs (ty .number)) :
    Code g Γ (.binOp tag op lhs rhs) (ty (if op.isArithmetic then .number else .bool))
  | ifElse {g : Stage} {Γ : List (Name × τ)} {c e e' : Node} {a : τ} (tag : Tag)
    (hc : Code g Γ c (ty .bool)) (ht : Code g Γ e a) (he : Code g Γ e' a) :
    Code g Γ (.ifElse tag c [e] [e']) a
  | whileDo {g : Stage} {Γ : List (Name × τ)} {c e : Node} {a : τ} (tag : Tag)
    (hc : Code g Γ c (ty .bool)) (he : Code g Γ e a) : Code g Γ (.whileDo tag c [e]) a
  | matchOn {g : Stage} {Γ : List (Name × τ)} {scrutinee : Node} {cases : List (Case Node)}
    {a b : τ} (tag : Tag) (hs : Code g Γ scrutinee a)
    (hp : ∀ c ∈ cases, c.pattern.isWildcard = false → Code g Γ c.pattern a)
    (hone : ∀ c ∈ cases, c.body.length = 1) (hb : ∀ c ∈ cases, ∀ e ∈ c.body, Code g Γ e b)
    (hw : ∃ c ∈ cases, c.pattern.isWildcard = true) : Code g Γ (.matchOn tag scrutinee cases) b
  | block {p : NodeId → Prop} {Γ : List (Name × τ)} {items : List Node} {a : τ} (tag : Tag)
    (h : Body p Γ items (.data a)) : Code (.source p) Γ (.block tag items) a
  | call {p : NodeId → Prop} {Γ : List (Name × τ)} {f : Name} {d : DefId} {t : Tag}
    {param : Decl Node} {body : List Node} {arg : Node} {b : Builtin} {a : τ} (tag ftag : Tag)
    (harg : Code (.source p) Γ arg (ty b)) (hf : store.lookup f = some (d, .func t param body))
    (hp : p t.id) (hty : store.Declares param.ty b) (hx : Γ.lookup param.name = none)
    (hfree : store.IsFree param.name)
    (hbody : Body (fun i => p i ∧ i ≠ t.id) [(param.name, ty b)] body (.data a)) :
    Code (.source p) Γ (.call tag (.ident ftag f) arg) a

/-- Code, or a function whose body ends in a program. -/
inductive Program : (NodeId → Prop) → List (Name × τ) → Node → Shape τ → Prop where
  | code {p : NodeId → Prop} {Γ : List (Name × τ)} {e : Node} {a : τ}
    (h : Code (.source p) Γ e a) : Program p Γ e (.data a)
  | func {p : NodeId → Prop} {Γ : List (Name × τ)} {param : Decl Node} {body : List Node}
    {b : Builtin} {σ : Shape τ} (tag : Tag) (hp : p tag.id) (hty : store.Declares param.ty b)
    (hx : Γ.lookup param.name = none) (hfree : store.IsFree param.name)
    (hbody : Body (fun i => p i ∧ i ≠ tag.id) ((param.name, ty b) :: Γ) body σ) :
    Program p Γ (.func tag param body) (.fn σ)

/-- A sequence of aliases and expressions that ends in a program. -/
inductive Body : (NodeId → Prop) → List (Name × τ) → List Node → Shape τ → Prop where
  | last {p : NodeId → Prop} {Γ : List (Name × τ)} {n : Node} {σ : Shape τ}
    (h : Program p Γ n σ) : Body p Γ [n] σ
  | expr {p : NodeId → Prop} {Γ : List (Name × τ)} {e : Node} {rest : List Node} {a : τ}
    {σ : Shape τ} (h : Code (.source p) Γ e a) (hrest : Body p Γ rest σ) : Body p Γ (e :: rest) σ
  | bind {p : NodeId → Prop} {Γ : List (Name × τ)} {x : Name} {value : Node}
    {link : Option DefId} {rest : List Node} {a : τ} {σ : Shape τ} (tag xtag : Tag)
    (h : Code (.source p) Γ value a) (hx : Γ.lookup x = none) (hfree : store.IsFree x)
    (hrest : Body p ((x, a) :: Γ) rest σ) :
    Body p Γ (.assign tag (.ident xtag x) value false link :: rest) σ

end

end

variable {τ : Type} {ty : Builtin → τ} {store : Definitions} {g : Stage} {Γ : List (Name × τ)}
variable {e : Node} {a : τ}

theorem Code.isAlias (h : Code ty store g Γ e a) : e.isAlias = false := by cases h <;> rfl

theorem Code.boundName? (h : Code ty store g Γ e a) : e.boundName? = none := by cases h <;> rfl

theorem Code.isPlaceholder (h : Code ty store g Γ e a) : e.isPlaceholder = false := by
  cases h <;> rfl

theorem Code.isFunc (h : Code ty store g Γ e a) : e.isFunc = false := by cases h <;> rfl

theorem Program.isAlias {p : NodeId → Prop} {n : Node} {σ : Shape τ}
    (h : Program ty store p Γ n σ) : n.isAlias = false := by
  cases h with
  | code h => exact h.isAlias
  | func => rfl

theorem Program.boundName? {p : NodeId → Prop} {n : Node} {σ : Shape τ}
    (h : Program ty store p Γ n σ) : n.boundName? = none := by
  cases h with
  | code h => exact h.boundName?
  | func => rfl

theorem Body.ne_nil {p : NodeId → Prop} {items : List Node} {σ : Shape τ}
    (h : Body ty store p Γ items σ) : items ≠ [] := by
  cases h <;> simp

/-- Residual code binds nothing and enters nothing, so more names may be in scope, and it is source
code as well. -/
theorem Code.weaken {g' : Stage} {Γ' : List (Name × τ)} : ∀ {g : Stage} {Γ : List (Name × τ)}
    {e : Node} {a : τ}, Code ty store g Γ e a → g = .residual →
    (∀ x a, Γ.lookup x = some a → Γ'.lookup x = some a) → Code ty store g' Γ' e a
  | _, _, _, _, .lit tag l, _, _ => .lit tag l
  | _, _, _, _, .var tag h, _, hΓ => .var tag (hΓ _ _ h)
  | _, _, _, _, .list tag h, hg, hΓ => .list tag fun e he => (h e he).weaken hg hΓ
  | _, _, _, _, .binOp tag hop hl hr, hg, hΓ => .binOp tag hop (hl.weaken hg hΓ) (hr.weaken hg hΓ)
  | _, _, _, _, .ifElse tag hc ht he, hg, hΓ =>
    .ifElse tag (hc.weaken hg hΓ) (ht.weaken hg hΓ) (he.weaken hg hΓ)
  | _, _, _, _, .whileDo tag hc he, hg, hΓ => .whileDo tag (hc.weaken hg hΓ) (he.weaken hg hΓ)
  | _, _, _, _, .matchOn tag hs hp hone hb hw, hg, hΓ =>
    .matchOn tag (hs.weaken hg hΓ) (fun c hc hw => (hp c hc hw).weaken hg hΓ) hone
      (fun c hc e he => (hb c hc e he).weaken hg hΓ) hw
  | _, _, _, _, .const .., hg, _ => nomatch hg
  | _, _, _, _, .block .., hg, _ => nomatch hg
  | _, _, _, _, .call .., hg, _ => nomatch hg

mutual

/-- More functions may be entered. -/
theorem Code.mono : ∀ {g : Stage} {Γ : List (Name × τ)} {e : Node} {a : τ},
    Code ty store g Γ e a → ∀ {p q : NodeId → Prop}, g = .source p → (∀ i, p i → q i) →
    Code ty store (.source q) Γ e a
  | _, _, _, _, .lit tag l, _, _, _, _ => .lit tag l
  | _, _, _, _, .var tag h, _, _, _, _ => .var tag h
  | _, _, _, _, .const tag hx hp hv, _, _, hg, hq => by
    cases hg
    exact .const tag hx (hq _ hp) hv
  | _, _, _, _, .list tag h, _, _, hg, hq => .list tag fun e he => (h e he).mono hg hq
  | _, _, _, _, .binOp tag hop hl hr, _, _, hg, hq =>
    .binOp tag hop (hl.mono hg hq) (hr.mono hg hq)
  | _, _, _, _, .ifElse tag hc ht he, _, _, hg, hq =>
    .ifElse tag (hc.mono hg hq) (ht.mono hg hq) (he.mono hg hq)
  | _, _, _, _, .whileDo tag hc he, _, _, hg, hq => .whileDo tag (hc.mono hg hq) (he.mono hg hq)
  | _, _, _, _, .matchOn tag hs hp hone hb hw, _, _, hg, hq =>
    .matchOn tag (hs.mono hg hq) (fun c hc hw => (hp c hc hw).mono hg hq) hone
      (fun c hc e he => (hb c hc e he).mono hg hq) hw
  | _, _, _, _, .block tag h, _, _, hg, hq => by
    cases hg
    exact .block tag (h.mono hq)
  | _, _, _, _, .call tag ftag harg hf hp hty hx hfree hbody, _, _, hg, hq => by
    cases hg
    exact .call tag ftag (harg.mono rfl hq) hf (hq _ hp) hty hx hfree
      (hbody.mono fun i hi => ⟨hq i hi.1, hi.2⟩)

theorem Program.mono : ∀ {p : NodeId → Prop} {Γ : List (Name × τ)} {n : Node} {σ : Shape τ},
    Program ty store p Γ n σ → ∀ {q : NodeId → Prop}, (∀ i, p i → q i) → Program ty store q Γ n σ
  | _, _, _, _, .code h, _, hq => .code (h.mono rfl hq)
  | _, _, _, _, .func tag hp hty hx hfree hbody, _, hq =>
    .func tag (hq _ hp) hty hx hfree (hbody.mono fun i hi => ⟨hq i hi.1, hi.2⟩)

theorem Body.mono : ∀ {p : NodeId → Prop} {Γ : List (Name × τ)} {items : List Node} {σ : Shape τ},
    Body ty store p Γ items σ → ∀ {q : NodeId → Prop}, (∀ i, p i → q i) → Body ty store q Γ items σ
  | _, _, _, _, .last h, _, hq => .last (h.mono hq)
  | _, _, _, _, .expr h hrest, _, hq => .expr (h.mono rfl hq) (hrest.mono hq)
  | _, _, _, _, .bind tag xtag h hx hfree hrest, _, hq =>
    .bind tag xtag (h.mono rfl hq) hx hfree (hrest.mono hq)

end

end FirstOrder

end Residual
