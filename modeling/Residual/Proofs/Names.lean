/-
The names in a node: its identifiers, the targets of its aliases among them, and the parameters of
its functions. A node is within a set of names if all its names are; what evaluation makes of such a
node stays within the set if what it looks up does and other names of binders are in the set.
-/
import Mathlib.Logic.Basic
import Residual.Env

namespace Residual.Node

/-! ## Names -/

mutual

/-- The names that occur in a node, as identifiers or as parameters. -/
def names : Node → List Name
  | lit .. | enum .. | builtin .. | unknown .. => []
  | list _ items => namesList items
  | record _ _ fields _ => namesDecls fields
  | fnType _ _ dom cod => names dom ++ names cod
  | selfType _ ty | arg _ _ ty | field _ _ ty => names ty
  | assign _ target value _ _ => names target ++ names value
  | ident _ name => [name]
  | func _ param body => namesDecl param ++ namesList body
  | call _ f a => names f ++ names a
  | binOp _ _ lhs rhs => names lhs ++ names rhs
  | matchOn _ scrutinee cases => names scrutinee ++ namesCases cases
  | whileDo _ condition body => names condition ++ namesList body
  | ifElse _ condition thenBody elseBody =>
    names condition ++ namesList thenBody ++ namesList elseBody
  | block _ items => namesList items
  | inst _ template body => names template ++ namesList body

def namesList : List Node → List Name
  | [] => []
  | n :: ns => names n ++ namesList ns

/-- A declared name counts where it is a parameter; the fields of a record are no names. -/
def namesDecl : Decl Node → List Name
  | ⟨_, name, ty⟩ => name :: names ty

def namesDecls : List (Decl Node) → List Name
  | [] => []
  | ⟨_, _, ty⟩ :: ds => names ty ++ namesDecls ds

def namesCases : List (Case Node) → List Name
  | [] => []
  | ⟨_, pattern, body⟩ :: cs => names pattern ++ namesList body ++ namesCases cs

end

theorem mem_namesList {x : Name} {ns : List Node} : x ∈ namesList ns ↔ ∃ n ∈ ns, x ∈ n.names := by
  induction ns with
  | nil => simp [namesList]
  | cons n ns ih => simp [namesList, ih]

theorem mem_namesDecls {x : Name} {ds : List (Decl Node)} :
    x ∈ namesDecls ds ↔ ∃ d ∈ ds, x ∈ d.ty.names := by
  induction ds with
  | nil => simp [namesDecls]
  | cons d ds ih => simp [namesDecls, ih]

theorem mem_namesCases {x : Name} {cs : List (Case Node)} :
    x ∈ namesCases cs ↔ ∃ c ∈ cs, x ∈ c.pattern.names ∨ ∃ n ∈ c.body, x ∈ n.names := by
  induction cs with
  | nil => simp [namesCases]
  | cons c cs ih => simp [namesCases, ih, mem_namesList, or_assoc]

/-! ## Nodes within a set of names -/

/-- All names of the node are in the set. -/
def Within (P : Name → Prop) (n : Node) : Prop := ∀ x ∈ n.names, P x

instance {P : Name → Prop} [DecidablePred P] (n : Node) : Decidable (n.Within P) :=
  inferInstanceAs (Decidable (∀ x ∈ n.names, P x))

section

variable {P : Name → Prop} {t : Tag}

@[simp] theorem within_lit {value : Literal} : (lit t value).Within P := List.forall_mem_nil _

@[simp] theorem within_enum {id : TypeId} {members : List Name} : (enum t id members).Within P :=
  List.forall_mem_nil _

@[simp] theorem within_builtin {b : Builtin} : (builtin t b).Within P := List.forall_mem_nil _

@[simp] theorem within_unknown : (unknown t).Within P := List.forall_mem_nil _

@[simp] theorem within_ident {x : Name} : (ident t x).Within P ↔ P x := List.forall_mem_singleton

@[simp] theorem within_selfType {ty : Node} : (selfType t ty).Within P ↔ ty.Within P := .rfl

@[simp] theorem within_arg {x : Name} {ty : Node} : (arg t x ty).Within P ↔ ty.Within P := .rfl

@[simp] theorem within_field {x : Name} {ty : Node} : (field t x ty).Within P ↔ ty.Within P := .rfl

@[simp] theorem within_fnType {id : TypeId} {dom cod : Node} :
    (fnType t id dom cod).Within P ↔ dom.Within P ∧ cod.Within P := List.forall_mem_append

@[simp] theorem within_assign {target value : Node} {p : Bool} {link : Option DefId} :
    (assign t target value p link).Within P ↔ target.Within P ∧ value.Within P :=
  List.forall_mem_append

@[simp] theorem within_call {f a : Node} : (call t f a).Within P ↔ f.Within P ∧ a.Within P :=
  List.forall_mem_append

@[simp] theorem within_binOp {op : Operator} {lhs rhs : Node} :
    (binOp t op lhs rhs).Within P ↔ lhs.Within P ∧ rhs.Within P := List.forall_mem_append

theorem forall_mem_namesList {ns : List Node} :
    (∀ x ∈ namesList ns, P x) ↔ ∀ n ∈ ns, n.Within P := by
  simp only [mem_namesList, Within]
  exact ⟨fun h n hn x hx => h x ⟨n, hn, hx⟩, fun h x ⟨n, hn, hx⟩ => h n hn x hx⟩

@[simp] theorem within_list {items : List Node} :
    (list t items).Within P ↔ ∀ n ∈ items, n.Within P := forall_mem_namesList

@[simp] theorem within_block {items : List Node} :
    (block t items).Within P ↔ ∀ n ∈ items, n.Within P := forall_mem_namesList

theorem forall_mem_namesDecls {ds : List (Decl Node)} :
    (∀ x ∈ namesDecls ds, P x) ↔ ∀ d ∈ ds, d.ty.Within P := by
  simp only [mem_namesDecls, Within]
  exact ⟨fun h d hd x hx => h x ⟨d, hd, hx⟩, fun h x ⟨d, hd, hx⟩ => h d hd x hx⟩

@[simp] theorem within_record {id : TypeId} {fields : List (Decl Node)} {range : Option Range} :
    (record t id fields range).Within P ↔ ∀ d ∈ fields, d.ty.Within P := forall_mem_namesDecls

@[simp] theorem within_whileDo {condition : Node} {body : List Node} :
    (whileDo t condition body).Within P ↔ condition.Within P ∧ ∀ n ∈ body, n.Within P :=
  List.forall_mem_append.trans (and_congr_right' forall_mem_namesList)

@[simp] theorem within_inst {template : Node} {body : List Node} :
    (inst t template body).Within P ↔ template.Within P ∧ ∀ n ∈ body, n.Within P :=
  List.forall_mem_append.trans (and_congr_right' forall_mem_namesList)

@[simp] theorem within_func {param : Decl Node} {body : List Node} :
    (func t param body).Within P ↔ P param.name ∧ param.ty.Within P ∧ ∀ n ∈ body, n.Within P := by
  obtain ⟨id, name, ty⟩ := param
  refine List.forall_mem_append.trans ?_
  rw [forall_mem_namesList, ← and_assoc]
  exact and_congr_left' List.forall_mem_cons

@[simp] theorem within_ifElse {condition : Node} {thenBody elseBody : List Node} :
    (ifElse t condition thenBody elseBody).Within P ↔
      condition.Within P ∧ (∀ n ∈ thenBody, n.Within P) ∧ ∀ n ∈ elseBody, n.Within P := by
  refine List.forall_mem_append.trans ?_
  rw [List.forall_mem_append, forall_mem_namesList, forall_mem_namesList, and_assoc]
  rfl

@[simp] theorem within_matchOn {scrutinee : Node} {cases : List (Case Node)} :
    (matchOn t scrutinee cases).Within P ↔
      scrutinee.Within P ∧ ∀ c ∈ cases, c.pattern.Within P ∧ ∀ n ∈ c.body, n.Within P := by
  constructor
  · intro h
    refine ⟨fun x hx => h x (List.mem_append_left _ hx), fun c hc => ⟨fun x hx => ?_, fun n hn x hx => ?_⟩⟩
    · exact h x (List.mem_append_right _ (mem_namesCases.2 ⟨c, hc, .inl hx⟩))
    · exact h x (List.mem_append_right _ (mem_namesCases.2 ⟨c, hc, .inr ⟨n, hn, hx⟩⟩))
  · rintro ⟨hs, hcs⟩ x hx
    rcases List.mem_append.1 hx with hx | hx
    · exact hs x hx
    · obtain ⟨c, hc, hx | ⟨n, hn, hx⟩⟩ := mem_namesCases.1 hx
      · exact (hcs c hc).1 x hx
      · exact (hcs c hc).2 n hn x hx

end

theorem Within.of_ident? {P : Name → Prop} {n : Node} (h : n.Within P) {x : Name}
    (hx : n.ident? = some x) : P x := by
  cases n with
  | ident t y =>
    cases hx
    exact within_ident.1 h
  | _ => cases hx

/-- A field of an instance is within what the instance is within. -/
theorem within_fieldValue? {P : Name → Prop} {body : List Node} {name : Name} {value : Node}
    (h : ∀ n ∈ body, n.Within P) (hv : fieldValue? body name = some value) : value.Within P := by
  obtain ⟨_, _, _, _, hitem, -⟩ := exists_of_fieldValue? hv
  exact (within_assign.1 (h _ hitem)).2

/-! ## Free names -/

mutual

/-- The free names of a node. A parameter binds in the body of its function and an alias in what
follows it in its sequence; the field of an access, the members of an instance, the targets of
aliases and the pattern `_` stand for themselves. -/
def free : Node → List Name
  | lit .. | enum .. | builtin .. | unknown .. => []
  | list _ items => freeItems items
  | record _ _ fields _ => freeDecls fields
  | fnType _ _ dom cod => free dom ++ free cod
  | selfType _ ty | arg _ _ ty | field _ _ ty => free ty
  | assign _ _ value _ _ => free value
  | ident _ name => [name]
  | func _ ⟨_, name, ty⟩ body => free ty ++ (freeSeq body).filter (· != name)
  | call _ f a => free f ++ free a
  | binOp _ op lhs rhs => free lhs ++ if op = .dot then [] else free rhs
  | matchOn _ scrutinee cases => free scrutinee ++ freeCases cases
  | whileDo _ condition body => free condition ++ freeSeq body
  | ifElse _ condition thenBody elseBody => free condition ++ freeSeq thenBody ++ freeSeq elseBody
  | block _ items => freeSeq items
  | inst _ template body => free template ++ freeFields body

def freeItems : List Node → List Name
  | [] => []
  | n :: ns => free n ++ freeItems ns

def freeSeq : List Node → List Name
  | [] => []
  | n :: ns => free n ++ (freeSeq ns).filter (n.boundName? != some ·)

def freeFields : List Node → List Name
  | [] => []
  | ident .. :: ns => freeFields ns
  | n :: ns => free n ++ freeFields ns

def freeDecls : List (Decl Node) → List Name
  | [] => []
  | ⟨_, _, ty⟩ :: ds => free ty ++ freeDecls ds

def freeCases : List (Case Node) → List Name
  | [] => []
  | ⟨_, pattern, body⟩ :: cs =>
    (if pattern.isWildcard then [] else free pattern) ++ freeSeq body ++ freeCases cs

end

theorem mem_free_func {t : Tag} {param : Decl Node} {body : List Node} {x : Name} :
    x ∈ (func t param body).free ↔ x ∈ param.ty.free ∨ x ∈ freeSeq body ∧ x ≠ param.name := by
  obtain ⟨span, name, ty⟩ := param
  refine List.mem_append.trans (or_congr_right ?_)
  simp [List.mem_filter]

theorem mem_free_call {t : Tag} {f a : Node} {x : Name} :
    x ∈ (call t f a).free ↔ x ∈ f.free ∨ x ∈ a.free := List.mem_append

theorem mem_free_binOp {t : Tag} {op : Operator} {lhs rhs : Node} (h : op ≠ .dot) {x : Name} :
    x ∈ (binOp t op lhs rhs).free ↔ x ∈ lhs.free ∨ x ∈ rhs.free := by
  refine List.mem_append.trans (or_congr_right ?_)
  rw [if_neg h]

theorem mem_freeSeq_cons {n : Node} {ns : List Node} {x : Name} :
    x ∈ freeSeq (n :: ns) ↔ x ∈ n.free ∨ x ∈ freeSeq ns ∧ n.boundName? ≠ some x := by
  refine List.mem_append.trans (or_congr_right ?_)
  simp [List.mem_filter]

theorem mem_freeSeq_assign {t t' : Tag} {x y : Name} {value : Node} {p : Bool}
    {link : Option DefId} {ns : List Node} (hy : y ∈ freeSeq ns) (hne : y ≠ x) :
    y ∈ freeSeq (assign t (ident t' x) value p link :: ns) :=
  mem_freeSeq_cons.2 (.inr ⟨hy, fun heq => hne (Option.some.inj heq).symm⟩)

end Residual.Node
