/-
Definite nodes. A node is definite if no `self(T)` occurs in it and its function types are built of types.
Evaluation keeps definite nodes definite: the placeholders that it binds the parameters of functions to
are never put in place of their names. The checker, in turn, only ever looks at definite nodes and at the
placeholders that it has made itself, of definite types. So its results are definite types, and when two
of them are compared, the rule by which a placeholder matches everything is never used.
-/
import Residual.Proofs.Conduct
import Residual.Proofs.Layers
import Residual.Proofs.Preservation

namespace Residual

open Pass

namespace Node

/-! ## Definite nodes -/

mutual

/-- No `self(T)` occurs in the node, and the arguments and results of its function types are types. -/
def isDefinite : Node → Bool
  | selfType .. => false
  | lit .. | enum .. | builtin .. | ident .. | unknown .. => true
  | list _ items | block _ items => allDefinite items
  | record _ _ fields _ => declsDefinite fields
  | fnType _ _ a b => a.isType && b.isType && isDefinite a && isDefinite b
  | arg _ _ ty | field _ _ ty => isDefinite ty
  | assign _ a b _ _ | call _ a b | binOp _ _ a b => isDefinite a && isDefinite b
  | func _ ⟨_, _, ty⟩ body => isDefinite ty && allDefinite body
  | matchOn _ scrutinee cases => isDefinite scrutinee && casesDefinite cases
  | whileDo _ n body | inst _ n body => isDefinite n && allDefinite body
  | ifElse _ condition thenBody elseBody =>
    isDefinite condition && allDefinite thenBody && allDefinite elseBody

def allDefinite : List Node → Bool
  | [] => true
  | n :: ns => isDefinite n && allDefinite ns

def declsDefinite : List (Decl Node) → Bool
  | [] => true
  | ⟨_, _, ty⟩ :: ds => isDefinite ty && declsDefinite ds

def casesDefinite : List (Case Node) → Bool
  | [] => true
  | ⟨_, pattern, body⟩ :: cs => isDefinite pattern && allDefinite body && casesDefinite cs

end

theorem allDefinite_iff : ∀ {ns : List Node}, allDefinite ns = true ↔ ∀ n ∈ ns, n.isDefinite = true
  | [] => by simp [allDefinite]
  | n :: ns => by rw [allDefinite, Bool.and_eq_true, allDefinite_iff, List.forall_mem_cons]

theorem declsDefinite_iff : ∀ {ds : List (Decl Node)},
    declsDefinite ds = true ↔ ∀ d ∈ ds, d.ty.isDefinite = true
  | [] => by simp [declsDefinite]
  | ⟨_, _, ty⟩ :: ds => by
    rw [declsDefinite, Bool.and_eq_true, declsDefinite_iff, List.forall_mem_cons]

theorem casesDefinite_iff : ∀ {cs : List (Case Node)},
    casesDefinite cs = true ↔ ∀ c ∈ cs, ∀ n ∈ c.pattern :: c.body, n.isDefinite = true
  | [] => by simp [casesDefinite]
  | ⟨_, pattern, body⟩ :: cs => by
    simp only [casesDefinite, Bool.and_eq_true, allDefinite_iff, casesDefinite_iff,
      List.forall_mem_cons]

/-- The nodes right below a node that no pass looks at: the targets of aliases and the fields of
accesses. -/
def labels : Node → List Node
  | assign _ target _ _ _ => [target]
  | binOp _ op _ rhs => if op = .dot then [rhs] else []
  | _ => []

/-- What a node must be like, given that all nodes right below it are definite. -/
def isProper : Node → Bool
  | selfType .. => false
  | fnType _ _ dom cod => dom.isType && cod.isType
  | _ => true

theorem isDefinite_iff {n : Node} : n.isDefinite = true ↔ n.isProper = true ∧
    (∀ m ∈ n.children, m.isDefinite = true) ∧ ∀ m ∈ n.labels, m.isDefinite = true := by
  cases n with
  | lit | enum | builtin | ident | unknown | selfType => simp [isDefinite, isProper, children, labels]
  | list | block => simp [isDefinite, isProper, children, labels, allDefinite_iff]
  | record => simp [isDefinite, isProper, children, labels, declsDefinite_iff]
  | fnType => simp [isDefinite, isProper, children, labels, and_assoc]
  | arg | field | assign | call => simp [isDefinite, isProper, children, labels, and_comm]
  | binOp t op lhs rhs =>
    by_cases hop : op = .dot <;> simp [isDefinite, isProper, children, labels, hop]
  | func | whileDo => simp [isDefinite, isProper, children, labels, allDefinite_iff]
  | matchOn =>
    simp only [isDefinite, isProper, children, labels, casesDefinite_iff, Bool.and_eq_true,
      List.forall_mem_cons, List.forall_mem_flatMap]
    simp
  | ifElse =>
    simp [isDefinite, isProper, children, labels, allDefinite_iff, and_assoc, or_imp, forall_and]
  | inst t template body =>
    -- the members of an instance are names, and names are definite
    have hmember (m : Node) : (m.ident?.isNone = true → m.isDefinite = true) ↔ m.isDefinite = true := by
      cases m <;> simp [ident?, isDefinite]
    simp [isDefinite, isProper, children, labels, allDefinite_iff, hmember,
      -Option.isNone_iff_eq_none]

theorem isDefinite_child {m n : Node} (h : n.isDefinite = true) (hm : m ∈ n.children) :
    m.isDefinite = true := (isDefinite_iff.1 h).2.1 m hm

theorem isDefinite_label {m n : Node} (h : n.isDefinite = true) (hm : m ∈ n.labels) :
    m.isDefinite = true := (isDefinite_iff.1 h).2.2 m hm

theorem isDefinite_fieldValue? {t : Tag} {template value : Node} {body : List Node} {x : Name}
    (h : (inst t template body).isDefinite = true) (hv : fieldValue? body x = some value) :
    value.isDefinite = true := by
  obtain ⟨item, hitem, hvalue⟩ := exists_child_of_fieldValue? hv
  exact isDefinite_child (isDefinite_child h (hitem t template)) hvalue

/-- A definite node that is a type. -/
def IsDefiniteType (n : Node) : Prop := n.isType = true ∧ n.isDefinite = true

end Node

/-- Every definition is definite. -/
def Definitions.AreDefinite (store : Definitions) : Prop :=
  ∀ {x d v}, store.lookup x = some (d, v) → v.isDefinite = true

namespace Definite

open Node (isDefinite_iff isDefinite_child isDefinite_label)

/-! ## Evaluation -/

/-- Names stand for definite nodes, unless only the type of what they stand for is known. -/
structure IsDefiniteEnv (env : Env) : Prop where
  store : env.store.AreDefinite
  locals : ∀ b ∈ env.locals.bindings, b.value.isPlaceholder = true ∨ b.value.isDefinite = true

/-- Evaluation gives a definite node, and makes a type of a type. -/
structure Result (n v : Node) : Prop where
  definite : v.isDefinite = true
  type : n.isType = true → v.isType = true

variable {env : Env} {n v : Node} {items : List Node}

theorem IsDefiniteEnv.push (h : IsDefiniteEnv env) {b : Binding}
    (hb : b.value.isPlaceholder = true ∨ b.value.isDefinite = true) : IsDefiniteEnv (env.push b) :=
  ⟨h.store, List.forall_mem_cons.2 ⟨hb, h.locals⟩⟩

theorem result_of_not_isType (hn : n.isType = false) (hv : v.isDefinite = true) : Result n v :=
  ⟨hv, fun h => by rw [hn] at h; cases h⟩

/-- An evaluator that keeps nodes definite. -/
def Keeps (ev : Node → Pass Node) : Prop :=
  ∀ ⦃env : Env⦄ ⦃n : Node⦄, IsDefiniteEnv env → n.isDefinite = true →
    Returns env (fun _ => ev n) AnyFault (Result n)

/-- A definite node is made. -/
theorem returns_make {make : Tag → Node} (span : Span) (hn : n.isType = false)
    (h : ∀ t, (make t).isDefinite = true) :
    Returns env (fun _ => do return make (← tagAt span)) AnyFault (Result n) :=
  (returns_tagAt span).bind fun t _ => returns_pure (result_of_not_isType hn (h t))

/-- A name stays, if only the type of what it stands for is known. -/
theorem returns_evalIdent (henv : IsDefiniteEnv env) (tag : Tag) (x : Name) :
    Returns env (fun _ => Eval.evalIdent tag x) AnyFault (·.isDefinite = true) := by
  refine Eval.returns_evalName tag (fun _ => trivial) (fun b hb => ⟨fun hknown => ?_, fun _ _ => rfl⟩)
    (fun d v hv => ⟨fun _ => henv.store (Env.lookup_of_defined hv), fun _ => rfl⟩)
    fun _ _ _ => ⟨rfl, rfl⟩
  refine (henv.locals b (Env.mem_of_lookup_bound hb).1).resolve_left ?_
  rw [hknown]
  decide

/-- An alias is bound to a definite node, since it is definite itself. -/
theorem upkeep : Eval.Upkeep IsDefiniteEnv (·.isDefinite = true) where
  bind henv h := henv.push (.inr (isDefinite_child h List.mem_cons_self))
  rename h _ _ _ _ := isDefinite_iff.2 ⟨rfl,
    List.forall_mem_singleton.2 (isDefinite_child h List.mem_cons_self), List.forall_mem_singleton.2 rfl⟩
  block _ h := isDefinite_iff.2 ⟨rfl, h, List.forall_mem_nil _⟩

section

variable {ev : Node → Pass Node} (hev : Keeps ev)

include hev

theorem returns_definite (henv : IsDefiniteEnv env) (hn : n.isDefinite = true) :
    Returns env (fun _ => ev n) AnyFault (·.isDefinite = true) :=
  (hev henv hn).mono fun _ hv => hv.definite

theorem returns_evalSeq (henv : IsDefiniteEnv env) (h : ∀ n ∈ items, n.isDefinite = true) :
    Returns env (fun _ => Eval.evalSeq ev items) AnyFault fun vs => ∀ v ∈ vs, v.isDefinite = true :=
  upkeep.returns_evalSeq (fun n hn _ henv => returns_definite hev henv (h n hn)) henv

theorem returns_value (henv : IsDefiniteEnv env) (h : ∀ n ∈ items, n.isDefinite = true) (site : Span) :
    Returns env (fun _ => Eval.evalSeq ev items >>= (Eval.seqValue · site)) AnyFault
      (·.isDefinite = true) :=
  upkeep.returns_value (fun n hn _ henv => returns_definite hev henv (h n hn)) henv trivial

theorem returns_evalType (henv : IsDefiniteEnv env) (hn : n.isDefinite = true) :
    Returns env (fun _ => Eval.evalType ev n) AnyFault (Result n) :=
  Eval.returns_evalType (hev ⟨henv.store, henv.locals⟩ hn)

/-- The parameter of a function is bound to a placeholder in its body. -/
theorem returns_evalFunc (henv : IsDefiniteEnv env) {tag : Tag} {param : Decl Node} {body : List Node}
    (hn : (Node.func tag param body).isDefinite = true) :
    Returns env (fun _ => Eval.evalFunc ev tag param body) AnyFault (·.isDefinite = true) := by
  obtain ⟨hparam, hbody⟩ := List.forall_mem_cons.1 (isDefinite_iff.1 hn).2.1
  have hcall : IsDefiniteEnv (env.enterCall (.func tag param body)) := ⟨henv.store, henv.locals⟩
  refine Eval.returns_evalFunc (returns_evalType hev henv hparam) (fun ty t _ =>
    returns_evalSeq hev (hcall.push (.inl (Eval.isPlaceholder_param ty t))) hbody)
    fun t ty vs hty hvs => isDefinite_iff.2 ⟨rfl, ?_, List.forall_mem_nil _⟩
  exact List.forall_mem_cons.2 ⟨hty.definite, hvs⟩

theorem returns_evalCall (henv : IsDefiniteEnv env) {tag : Tag} {callee arg : Node}
    (hn : (Node.call tag callee arg).isDefinite = true) :
    Returns env (fun _ => Eval.evalCall ev tag callee arg) AnyFault (·.isDefinite = true) := by
  have hcallee : callee.isDefinite = true := isDefinite_child hn List.mem_cons_self
  have harg : arg.isDefinite = true :=
    isDefinite_child hn (List.mem_cons_of_mem _ List.mem_cons_self)
  refine Eval.returns_evalCall tag (returns_evalType hev henv hcallee) (returns_definite hev henv harg)
    (fun t param body v hf hv _ => ?_) fun f v hf hv _ => ?_
  · obtain ⟨-, hbody⟩ := List.forall_mem_cons.1 (isDefinite_iff.1 hf.definite).2.1
    have hcall : IsDefiniteEnv { env.enterCall (.func t param body) with transparent := true } :=
      ⟨henv.store, henv.locals⟩
    exact Eval.returns_apply ((returns_value hev (hcall.push (.inr hv)) hbody tag.span).mono
      fun _ hw _ => hw)
  · have hcall (k : Node) (hk : k.isDefinite = true) (t : Tag) : (Node.call t k v).isDefinite = true :=
      isDefinite_iff.2 ⟨rfl, List.forall_mem_cons.2 ⟨hk, List.forall_mem_singleton.2 hv⟩,
        List.forall_mem_nil _⟩
    exact Eval.returns_keptCallee (fun t x _ _ => (returns_evalIdent henv t x).mono hcall) fun _ =>
      Eval.returns_residualCallee (fun _ => hcall f hf.definite) fun _ _ _ _ _ _ _ =>
        hcall callee hcallee

theorem returns_evalBinOp (henv : IsDefiniteEnv env) {tag : Tag} {op : Operator} {lhs rhs : Node}
    (hn : (Node.binOp tag op lhs rhs).isDefinite = true) :
    Returns env (fun _ => Eval.evalBinOp ev tag op lhs rhs) AnyFault (·.isDefinite = true) := by
  have hl := returns_definite hev henv (isDefinite_child hn Node.mem_children_binOp)
  by_cases hop : op = .dot
  · subst hop
    have hr : rhs.isDefinite = true := isDefinite_label hn (by simp [Node.labels])
    refine Eval.returns_evalDot tag hl (fun t template body t' x howner _ => ?_)
      fun owner t howner _ => ?_
    · cases hvalue : Node.fieldValue? body x with
      | some value => exact .inl ⟨value, rfl, Node.isDefinite_fieldValue? howner hvalue⟩
      | none => exact .inr ⟨rfl, trivial⟩
    · exact isDefinite_iff.2
        ⟨rfl, List.forall_mem_singleton.2 howner, List.forall_mem_singleton.2 hr⟩
  · refine Eval.returns_evalBinOp tag hop hl
      (returns_definite hev henv (isDefinite_child hn (Node.mem_children_rhs hop)))
      (fun _ _ _ _ _ _ _ _ _ _ _ => rfl) fun a b t ha hb _ => ?_
    rw [Node.isDefinite, ha, hb]
    rfl

theorem returns_evalIf (henv : IsDefiniteEnv env) {tag : Tag} {condition : Node}
    {thenBody elseBody : List Node}
    (hn : (Node.ifElse tag condition thenBody elseBody).isDefinite = true) :
    Returns env (fun _ => Eval.evalIf ev tag condition thenBody elseBody) AnyFault
      (·.isDefinite = true) := by
  have ht (n : Node) (hm : n ∈ thenBody) := isDefinite_child hn (Node.mem_children_then hm)
  have he (n : Node) (hm : n ∈ elseBody) := isDefinite_child hn (Node.mem_children_else hm)
  refine Eval.returns_evalIf tag (returns_definite hev henv (isDefinite_child hn List.mem_cons_self))
    (fun _ _ _ => returns_value hev henv ht _) (fun _ _ _ => returns_value hev henv he _)
    (returns_evalSeq hev henv ht) (returns_evalSeq hev henv he) fun v ts es t hv _ hts hes => ?_
  refine isDefinite_iff.2 ⟨rfl, ?_, List.forall_mem_nil _⟩
  exact List.forall_mem_cons.2 ⟨hv, List.forall_mem_append.2 ⟨hts, hes⟩⟩

theorem returns_evalMatch (henv : IsDefiniteEnv env) {tag : Tag} {scrutinee : Node}
    {cases : List (Case Node)} (hn : (Node.matchOn tag scrutinee cases).isDefinite = true) :
    Returns env (fun _ => Eval.evalMatch ev tag scrutinee cases) AnyFault (·.isDefinite = true) := by
  have hpattern (c : Case Node) (hc : c ∈ cases) : c.pattern.isDefinite = true :=
    isDefinite_child hn (Node.mem_children_matchOn hc List.mem_cons_self)
  have hbody (c : Case Node) (hc : c ∈ cases) (m : Node) (hm : m ∈ c.body) : m.isDefinite = true :=
    isDefinite_child hn (Node.mem_children_matchOn hc (List.mem_cons_of_mem _ hm))
  refine Eval.returns_evalMatch tag (returns_definite hev henv (isDefinite_child hn List.mem_cons_self))
    (fun c hc _ => returns_definite hev henv (hpattern c hc))
    (fun c hc => returns_value hev henv (hbody c hc) c.span)
    (fun c hc => returns_evalSeq hev henv (hbody c hc)) (fun _ _ _ => trivial)
    fun v cs t hv _ hcs => isDefinite_iff.2 ⟨rfl, List.forall_mem_cons.2 ⟨hv, ?_⟩, List.forall_mem_nil _⟩
  exact List.forall_mem_flatMap.2 fun c hc => List.forall_mem_cons.2
    ⟨Eval.patterns_of_kept hcs hpattern c hc, Eval.body_of_kept hcs c hc⟩

theorem returns_evalDecls (henv : IsDefiniteEnv env) {fields : List (Decl Node)}
    (h : ∀ d ∈ fields, d.ty.isDefinite = true) :
    Returns env (fun _ => fields.mapM (Eval.evalDecl ev)) AnyFault
      fun ds => ∀ d ∈ ds, d.ty.isDefinite = true :=
  Returns.mapM_all fun d hd => (returns_evalType hev henv (h d hd)).bind fun _ hty =>
    returns_pure hty.definite

theorem returns_evalField (henv : IsDefiniteEnv env) (hn : n.ident? = none → n.isDefinite = true) :
    Returns env (fun _ => Eval.evalField ev n) AnyFault (·.isDefinite = true) :=
  Eval.returns_evalField (fun _ _ hident => by rw [hident]; rfl)
    fun hnone => returns_definite hev henv (hn hnone)

/-- One step of evaluation. -/
theorem returns_step (henv : IsDefiniteEnv env) (hn : n.isDefinite = true) :
    Returns env (fun _ => Eval.step ev n) AnyFault (Result n) := by
  have hchild {m : Node} (hm : m ∈ n.children) := isDefinite_child hn hm
  -- what is no type need not become one
  have hother {m : Pass Node} (htype : n.isType = false)
      (h : Returns env (fun _ => m) AnyFault (·.isDefinite = true)) :
      Returns env (fun _ => m) AnyFault (Result n) :=
    h.mono fun _ hv => result_of_not_isType htype hv
  cases n with
  | lit | builtin | enum | unknown => exact returns_pure ⟨hn, id⟩
  | selfType => cases hn
  | list tag items =>
    refine (Returns.mapM_all fun n hm => returns_definite hev henv (hchild hm)).bind fun vs hvs => ?_
    exact returns_make _ rfl fun t => isDefinite_iff.2 ⟨rfl, hvs, List.forall_mem_nil _⟩
  | record tag id fields range =>
    refine (returns_evalDecls hev henv fun d hd => hchild (Node.mem_children_record hd)).bind
      fun ds hds => (returns_tagAt _).bind fun _ _ => returns_pure ⟨?_, fun _ => rfl⟩
    exact isDefinite_iff.2 ⟨rfl, List.forall_mem_map.2 hds, List.forall_mem_nil _⟩
  | fnType tag id dom cod =>
    obtain ⟨htypes, -, -⟩ := isDefinite_iff.1 hn
    obtain ⟨hdom, hcod⟩ := Bool.and_eq_true_iff.1 htypes
    refine (returns_evalType hev henv (hchild List.mem_cons_self)).bind fun dom' hdom' => ?_
    refine (returns_evalType hev henv (hchild (List.mem_cons_of_mem _ List.mem_cons_self))).bind
      fun cod' hcod' => (returns_tagAt _).bind fun _ _ => returns_pure ⟨?_, fun _ => rfl⟩
    simp [Node.isDefinite, hdom'.type hdom, hcod'.type hcod, hdom'.definite, hcod'.definite]
  | arg | field =>
    refine (returns_evalType hev henv (hchild List.mem_cons_self)).bind fun ty hty => ?_
    exact returns_make _ rfl fun t => hty.definite
  | assign tag target value transparent link =>
    have htarget : target.isDefinite = true := isDefinite_label hn List.mem_cons_self
    refine (returns_definite hev henv (hchild List.mem_cons_self)).bind fun v hv => ?_
    refine returns_env.bind fun _ _ => returns_make _ rfl fun t => ?_
    exact isDefinite_iff.2 ⟨rfl, List.forall_mem_singleton.2 hv, List.forall_mem_singleton.2 htarget⟩
  | ident tag x => exact hother rfl (returns_evalIdent henv tag x)
  | func => exact hother rfl (returns_evalFunc hev henv hn)
  | call => exact hother rfl (returns_evalCall hev henv hn)
  | binOp => exact hother rfl (returns_evalBinOp hev henv hn)
  | matchOn => exact hother rfl (returns_evalMatch hev henv hn)
  | whileDo tag condition body =>
    refine (returns_definite hev henv (hchild List.mem_cons_self)).bind fun v hv => ?_
    refine (returns_evalSeq hev henv fun m hm => hchild (List.mem_cons_of_mem _ hm)).bind
      fun vs hvs => returns_make _ rfl fun t => ?_
    exact isDefinite_iff.2 ⟨rfl, List.forall_mem_cons.2 ⟨hv, hvs⟩, List.forall_mem_nil _⟩
  | ifElse => exact hother rfl (returns_evalIf hev henv hn)
  | block tag items => exact hother rfl (returns_value hev henv (fun m hm => hchild hm) tag.span)
  | inst tag template body =>
    refine (returns_evalType hev henv (hchild List.mem_cons_self)).bind fun ty hty => ?_
    refine (Returns.mapM_all fun n hm => returns_evalField hev henv fun hident =>
      hchild (Node.mem_children_inst hm hident)).bind fun vs hvs => returns_make _ rfl fun t => ?_
    refine isDefinite_iff.2 ⟨rfl, List.forall_mem_cons.2 ⟨hty.definite, ?_⟩, List.forall_mem_nil _⟩
    exact fun v hv => hvs v (List.mem_filter.1 hv).1

end

/-- What a definite node evaluates to is definite. -/
theorem keeps_eval : ∀ depth : Nat, Keeps (eval depth)
  | 0, _, _, _, _ => returns_throw trivial
  | depth + 1, _, _, henv, hn => returns_step (keeps_eval depth) henv hn

/-! ## Checking -/

open Regime

/-- What the checker may look at: a definite node, or a placeholder for a value of a definite type. -/
inductive Fits : Node → Prop where
  | node {n : Node} (h : n.isDefinite = true) : Fits n
  | placeholder {ty : Node} (t : Tag) (h : ty.IsDefiniteType) : Fits (.selfType t ty)

theorem Fits.child {m : Node} (h : Fits n) (hm : m ∈ n.children) : m.isDefinite = true := by
  cases h with
  | node h => exact isDefinite_child h hm
  | placeholder t h => exact List.mem_singleton.1 hm ▸ h.2

theorem Fits.content {t : Tag} {ty : Node} (h : Fits (.selfType t ty)) : ty.IsDefiniteType := by
  cases h with
  | node h => cases h
  | placeholder _ h => exact h

/-- The definitions are definite, and the locals are placeholders for values of definite types. -/
structure Ready (env : Env) : Prop where
  store : env.store.AreDefinite
  locals : ∀ b ∈ env.locals.bindings, ∃ t ty, b.value = .selfType t ty ∧ ty.IsDefiniteType

theorem Ready.isDefiniteEnv (h : Ready env) : IsDefiniteEnv env where
  store := h.store
  locals b hb := by
    obtain ⟨t, ty, hvalue, -⟩ := h.locals b hb
    rw [hvalue]
    exact .inl rfl

theorem isDefiniteType_fnType {dom cod : Node} (t : Tag) (id : TypeId) :
    (Node.fnType t id dom cod).IsDefiniteType ↔ dom.IsDefiniteType ∧ cod.IsDefiniteType := by
  simp only [Node.IsDefiniteType, Node.isType, Node.isDefinite, Bool.and_eq_true, true_and]
  constructor
  · rintro ⟨⟨⟨h₁, h₂⟩, h₃⟩, h₄⟩
    exact ⟨⟨h₁, h₃⟩, h₂, h₄⟩
  · rintro ⟨⟨h₁, h₃⟩, h₂, h₄⟩
    exact ⟨⟨⟨h₁, h₂⟩, h₃⟩, h₄⟩

/-- The checker ends with definite types, whatever its faults are. -/
def regime : Regime where
  Ready _ env := Ready env
  Fit _ n := Fits n
  Value _ n := n.isDefinite = true
  Ty _ n := n.IsDefiniteType
  Fine := AnyFault
  ready_mono h _ := h
  fit_mono h _ := h
  value_mono h _ := h
  ty_mono h _ := h
  fit_of_value h := .node h
  value_of_ty h := h.2
  ty_of_value h htype := ⟨htype, h⟩
  child h hm := h.child hm
  signature h := (isDefiniteType_fnType _ _).1 h
  content h := h.content
  builtin _ _ _ _ := ⟨rfl, rfl⟩
  selfType _ _ _ hty := .placeholder _ hty
  fnType _ _ _ _ hdom hcod := (isDefiniteType_fnType _ _).2 ⟨hdom, hcod⟩
  push _ _ h hv := ⟨h.store, List.forall_mem_cons.2 ⟨⟨_, _, rfl, hv.content⟩, h.locals⟩⟩
  resolve _ h := ⟨h.store, h.locals⟩
  globals h := ⟨h.store, List.forall_mem_nil _⟩
  bound h hx := by
    obtain ⟨t, ty, hvalue, hty⟩ := h.locals _ (Env.mem_of_lookup_bound hx).1
    rw [hvalue]
    exact .placeholder t hty
  defined h _ hx := .node (h.store (Env.lookup_of_defined hx))
  error _ := trivial

theorem Ready.enterCall (h : Ready env) (f : Node) : Ready (env.enterCall f) := ⟨h.store, h.locals⟩

theorem evals_eval (depth : Nat) : regime.Evals (eval depth) := by
  intro env c n henv hn
  refine (restores_eval depth n).settles ?_ fun _ _ _ _ => trivial
  rintro s t v rfl - hrun
  obtain ⟨r, t', hends, depth', hrun'⟩ := keeps_eval depth henv.isDefiniteEnv hn s rfl
  cases hrun.symm.trans (hrun' depth' (Nat.le_refl _))
  exact hends.1.definite

/-- The result of a call is checked with the parameter standing for its type. -/
theorem settles_checkCall {ev ck : Node → Pass Node} (hev : regime.Evals ev)
    (hck : regime.Checks ck) {c : Nat} {tag : Tag} {callee arg : Node} (henv : Ready env)
    (hn : (Node.call tag callee arg).isDefinite = true) :
    Settles AnyFault env c (Check.checkCall ev ck tag callee arg)
      fun _ ty => ty.IsDefiniteType := by
  have hcallee : callee.isDefinite = true := isDefinite_child hn List.mem_cons_self
  have harg : arg.isDefinite = true :=
    isDefinite_child hn (List.mem_cons_of_mem _ List.mem_cons_self)
  refine (hck henv (.node hcallee)).bind fun _ calleeType _ hty => ?_
  refine (settles_signature (R := regime) hty _).bind fun _ declared _ hdeclared => ?_
  refine (hck henv (.node harg)).bind fun _ argType _ _ => ?_
  refine (settles_evalType hev henv hcallee).bind fun _ function _ _ => ?_
  split
  · rename_i ftag param body dom cod _
    refine (settles_checkArg (R := regime) _ _ _ _ _).bind fun _ _ _ _ => ?_
    refine (settles_evalType hev henv hn).bind fun _ result _ hresult => ?_
    have hdom : dom.IsDefiniteType := (hdeclared.1 dom cod rfl).1
    refine (settles_placeholder (R := regime) henv _ hdom).bind ?_
    rintro _ _ _ ⟨t, rfl, hv⟩
    have hinner := regime.push (c := 0) param.name true (henv.enterCall (.func ftag param body)) hv
    exact Settles.under (Settles.under (hck hinner (.node hresult)) (Guard.lawful_binding _))
      (Guard.lawful_call _)
  · exact settles_throw trivial
  · refine (settles_checkArg (R := regime) _ _ _ _ _).bind fun _ _ _ _ => ?_
    exact settles_pure fun _ _ => (hdeclared.1 _ _ rfl).2
  · exact settles_builtin (R := regime) henv .any

theorem checks_check : ∀ depth : Nat, regime.Checks (check depth)
  | 0, _, _, _, _, _ => settles_throw trivial
  | depth + 1, env, c, n, henv, hn => by
    have hev := evals_eval depth
    have hck := checks_check depth
    refine settles_step (restores_eval depth) (restores_check depth) hev hck henv hn ?_ ?_ ?_
    · rintro tag param body rfl
      exact settles_checkFunc (restores_check depth) hev hck henv (hn.child List.mem_cons_self)
        (fun m hm => .node (hn.child (List.mem_cons_of_mem _ hm))) (henv.enterCall _) fun _ => trivial
    · rintro tag callee arg rfl
      cases hn with
      | node hn => exact settles_checkCall hev hck henv hn
    · rintro tag x d v c' rfl hx _ _
      have hv : Fits v := regime.defined (c := c) henv hn hx
      have hglobals : Ready { env with locals := .empty } := regime.globals (c := c) henv
      exact settles_checkDefined hck (hglobals.enterCall v) hv fun _ => trivial

/-! ## Compatibility -/

/-- Compatibility if placeholders match nothing at all. -/
def strictlyCompatible (expected found : Node) : Bool :=
  match expected, found with
  | .selfType .., _ => false
  | _, .selfType .. => false
  | .builtin _ .any, _ => true
  | .builtin _ .function, .fnType .. => true
  | .fnType _ _ _ a, .fnType _ _ _ b => strictlyCompatible a b
  | a, b =>
    match a.typeId?, b.typeId? with
    | some i, some j => i == j
    | _, _ => false

end Definite

/-- The two differ on placeholders only, and there are none in definite types. -/
theorem compatible_of_isDefiniteType {a b : Node} (ha : a.IsDefiniteType) (hb : b.IsDefiniteType) :
    compatible a b = Definite.strictlyCompatible a b := by
  cases a with
  | selfType => cases ha.2
  | fnType t id dom cod =>
    cases b with
    | selfType => cases hb.2
    | fnType t' id' dom' cod' =>
      rw [compatible, Definite.strictlyCompatible]
      exact compatible_of_isDefiniteType ((Definite.isDefiniteType_fnType t id).1 ha).2
        ((Definite.isDefiniteType_fnType t' id').1 hb).2
    | _ => rfl
  | builtin t x =>
    cases b with
    | selfType => cases hb.2
    | _ => cases x <;> rfl
  | record | enum =>
    cases b with
    | selfType => cases hb.2
    | _ => rfl
  | _ => cases ha.1

/-- The checker ends with types, in which no placeholder occurs and whose function types are built of
types again. Where two such types are compared, it makes no difference what placeholders match. -/
theorem check_isDefiniteType {store : Definitions} {n ty : Node} {s t : Machine} {depth : Nat}
    (hstore : store.AreDefinite) (hn : n.isDefinite = true) (hs : s.env.IsFresh store)
    (hrun : (check depth n).runOn s = (.ok ty, t)) :
    ty.IsDefiniteType ∧ ∀ other : Node, other.IsDefiniteType →
      compatible ty other = Definite.strictlyCompatible ty other ∧
        compatible other ty = Definite.strictlyCompatible other ty := by
  have hready : Definite.Ready s.env := by
    refine ⟨hs.store_eq ▸ hstore, fun b hb => ?_⟩
    rw [hs.locals] at hb
    cases hb
  have hends := (Definite.checks_check depth hready (.node hn) rfl (Nat.le_refl s.nodes.next)).2
  rw [hrun] at hends
  have hty : ty.IsDefiniteType := hends.1
  exact ⟨hty, fun other hother =>
    ⟨compatible_of_isDefiniteType hty hother, compatible_of_isDefiniteType hother hty⟩⟩

/-- `P = struct { x: Number }`, `f = @p(P) @k(Number) p.x + k` and
`g = @n(Number) if n < 1 then n else g(n - 1)` -/
def curriedDefinitions : Definitions := ⟨[
  ("P", .record ⟨0, .builtin⟩ "P" [⟨.builtin, "x", .ident ⟨1, .builtin⟩ "Number"⟩] none),
  ("f", .func ⟨2, .builtin⟩ ⟨.builtin, "p", .ident ⟨3, .builtin⟩ "P"⟩ [
    .func ⟨4, .builtin⟩ ⟨.builtin, "k", .ident ⟨5, .builtin⟩ "Number"⟩ [
      .binOp ⟨6, .builtin⟩ .add (.binOp ⟨7, .builtin⟩ .dot (.ident ⟨8, .builtin⟩ "p")
        (.ident ⟨9, .builtin⟩ "x")) (.ident ⟨10, .builtin⟩ "k")]]),
  ("g", .func ⟨11, .builtin⟩ ⟨.builtin, "n", .ident ⟨12, .builtin⟩ "Number"⟩ [
    .ifElse ⟨13, .builtin⟩ (.binOp ⟨14, .builtin⟩ .lt (.ident ⟨15, .builtin⟩ "n")
        (.lit ⟨16, .builtin⟩ (.number 1)))
      [.ident ⟨17, .builtin⟩ "n"]
      [.call ⟨18, .builtin⟩ (.ident ⟨19, .builtin⟩ "g") (.binOp ⟨20, .builtin⟩ .sub
        (.ident ⟨21, .builtin⟩ "n") (.lit ⟨22, .builtin⟩ (.number 1)))]])]⟩

/-- `@q(P) { r = g(q.x); f }` -/
def curriedProgram : Node :=
  .func ⟨23, .builtin⟩ ⟨.builtin, "q", .ident ⟨24, .builtin⟩ "P"⟩ [
    .assign ⟨25, .builtin⟩ (.ident ⟨26, .builtin⟩ "r") (.call ⟨27, .builtin⟩
      (.ident ⟨28, .builtin⟩ "g") (.binOp ⟨29, .builtin⟩ .dot (.ident ⟨30, .builtin⟩ "q")
        (.ident ⟨31, .builtin⟩ "x"))) false none,
    .ident ⟨32, .builtin⟩ "f"]

theorem areDefinite_curriedDefinitions : curriedDefinitions.AreDefinite := by
  intro x d v h
  have hmem := Definitions.mem_entries_of_lookup h
  simp only [curriedDefinitions, List.mem_cons, List.not_mem_nil, or_false, Prod.mk.injEq] at hmem
  rcases hmem with ⟨-, rfl⟩ | ⟨-, rfl⟩ | ⟨-, rfl⟩ <;> rfl

theorem check_isDefiniteType_curried : ∃ ty t,
    (check 12 curriedProgram).runOn (freshMachine curriedDefinitions true) = (.ok ty, t) ∧
      ty.IsDefiniteType := by
  obtain ⟨ty, t, hrun⟩ := runOn_of_isOk (m := check 12 curriedProgram)
    (s := freshMachine curriedDefinitions true) (by decide +kernel)
  exact ⟨ty, t, hrun, (check_isDefiniteType areDefinite_curriedDefinitions rfl
    (isFresh_freshMachine _ true) hrun).1⟩

end Residual
