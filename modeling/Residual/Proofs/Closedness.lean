/-
Closed nodes. A node is closed over a set of names if its free names are in the set and no placeholder
occurs in it. How a node is closed over a set follows its shape: a binder adds its name to the set for
what it binds in.
-/
import Residual.Proofs.Names

namespace Residual.Node

/-! ## Concrete nodes -/

mutual

/-- No placeholder, `?` or `self(T)`, occurs in the node. -/
def isConcrete : Node → Bool
  | unknown .. | selfType .. => false
  | lit .. | enum .. | builtin .. | ident .. => true
  | list _ items | block _ items => allConcrete items
  | record _ _ fields _ => declsConcrete fields
  | arg _ _ ty | field _ _ ty => isConcrete ty
  | fnType _ _ a b | assign _ a b _ _ | call _ a b | binOp _ _ a b => isConcrete a && isConcrete b
  | func _ ⟨_, _, ty⟩ body => isConcrete ty && allConcrete body
  | matchOn _ scrutinee cases => isConcrete scrutinee && casesConcrete cases
  | whileDo _ n body | inst _ n body => isConcrete n && allConcrete body
  | ifElse _ condition thenBody elseBody =>
    isConcrete condition && allConcrete thenBody && allConcrete elseBody

def allConcrete : List Node → Bool
  | [] => true
  | n :: ns => isConcrete n && allConcrete ns

def declsConcrete : List (Decl Node) → Bool
  | [] => true
  | ⟨_, _, ty⟩ :: ds => isConcrete ty && declsConcrete ds

def casesConcrete : List (Case Node) → Bool
  | [] => true
  | ⟨_, pattern, body⟩ :: cs => isConcrete pattern && allConcrete body && casesConcrete cs

end

theorem isConcrete_of_isWildcard {n : Node} (h : n.isWildcard = true) : n.isConcrete = true := by
  cases n <;> first | rfl | cases h

/-! ## Closed nodes -/

/-- No placeholder occurs in the node, and its free names are in the set. -/
def Closed (P : Name → Prop) (n : Node) : Prop := n.isConcrete = true ∧ ∀ x ∈ n.free, P x

/-- Likewise for the nodes of a sequence, where an alias binds in what follows it. -/
def ClosedSeq (P : Name → Prop) (ns : List Node) : Prop :=
  allConcrete ns = true ∧ ∀ x ∈ freeSeq ns, P x

section

variable {P Q : Name → Prop} {n : Node} {ns : List Node} {t : Tag}

theorem Closed.mono (h : n.Closed P) (hPQ : ∀ x, P x → Q x) : n.Closed Q :=
  ⟨h.1, fun x hx => hPQ x (h.2 x hx)⟩

theorem ClosedSeq.mono (h : ClosedSeq P ns) (hPQ : ∀ x, P x → Q x) : ClosedSeq Q ns :=
  ⟨h.1, fun x hx => hPQ x (h.2 x hx)⟩

theorem Closed.isPlaceholder (h : n.Closed P) : n.isPlaceholder = false := by
  cases n <;> first | rfl | cases h.1

/-- Two parts of a node are closed together if each of them is. -/
theorem closed_and {p q : Bool} {xs ys : List Name} :
    ((p && q) = true ∧ ∀ x ∈ xs ++ ys, P x) ↔
      (p = true ∧ ∀ x ∈ xs, P x) ∧ (q = true ∧ ∀ x ∈ ys, P x) := by
  rw [Bool.and_eq_true, List.forall_mem_append]
  exact and_and_and_comm

/-- A binder adds its name to the set. -/
theorem closed_filter {p : Bool} {xs : List Name} {f : Name → Bool} :
    (p = true ∧ ∀ x ∈ xs.filter f, P x) ↔ (p = true ∧ ∀ x ∈ xs, P x ∨ f x = false) := by
  refine and_congr_right' ⟨fun h x hx => ?_, fun h x hx => ?_⟩
  · cases hf : f x with
    | true => exact .inl (h x (List.mem_filter.2 ⟨hx, hf⟩))
    | false => exact .inr rfl
  · obtain ⟨hx, hf⟩ := List.mem_filter.1 hx
    exact (h x hx).resolve_right (by simp [hf])

/-! ## Lists of nodes -/

@[simp] theorem closedSeq_nil : ClosedSeq P [] := ⟨rfl, List.forall_mem_nil _⟩

@[simp] theorem closedSeq_cons : ClosedSeq P (n :: ns) ↔
    n.Closed P ∧ ClosedSeq (fun x => P x ∨ n.boundName? = some x) ns := by
  refine closed_and.trans (and_congr_right' (closed_filter.trans ?_))
  simp only [bne_eq_false_iff_eq]
  rfl

theorem closedSeq_of_forall : ∀ {ns : List Node}, (∀ n ∈ ns, n.Closed P) → ClosedSeq P ns
  | [], _ => closedSeq_nil
  | _ :: _, h => closedSeq_cons.2 ⟨h _ (by simp),
    (closedSeq_of_forall fun n hn => h n (by simp [hn])).mono fun _ => .inl⟩

/-- If no name matters, neither does what is bound. -/
theorem closedSeq_true : ∀ {ns : List Node},
    ClosedSeq (fun _ => True) ns ↔ ∀ n ∈ ns, n.Closed fun _ => True
  | [] => by simp
  | n :: ns => by
    rw [List.forall_mem_cons, ← closedSeq_true, closedSeq_cons]
    simp only [true_or]

theorem closed_items : ∀ {ns : List Node},
    (allConcrete ns = true ∧ ∀ x ∈ freeItems ns, P x) ↔ ∀ n ∈ ns, n.Closed P
  | [] => ⟨fun _ => List.forall_mem_nil _, fun _ => closedSeq_nil⟩
  | n :: ns => by
    rw [List.forall_mem_cons, ← closed_items]
    exact closed_and

theorem closed_decls : ∀ {ds : List (Decl Node)},
    (declsConcrete ds = true ∧ ∀ x ∈ freeDecls ds, P x) ↔ ∀ d ∈ ds, d.ty.Closed P
  | [] => ⟨fun _ => List.forall_mem_nil _, fun _ => closedSeq_nil⟩
  | d :: ds => by
    rw [List.forall_mem_cons, ← closed_decls]
    exact closed_and

/-- In the body of an instance, a name that stands by itself is that of a member. -/
theorem closed_fields : ∀ {ns : List Node},
    (allConcrete ns = true ∧ ∀ x ∈ freeFields ns, P x) ↔ ∀ n ∈ ns, n.ident? = none → n.Closed P
  | [] => ⟨fun _ => List.forall_mem_nil _, fun _ => closedSeq_nil⟩
  | n :: ns => by
    rw [List.forall_mem_cons, ← closed_fields]
    cases hn : n.ident? with
    | some x =>
      cases n <;> cases hn
      exact (and_iff_right fun h => nomatch h).symm
    | none =>
      have hfree : freeFields (n :: ns) = n.free ++ freeFields ns := by
        cases n <;> first | rfl | cases hn
      rw [hfree]
      exact closed_and.trans (and_congr_left' ⟨fun h _ => h, fun h => h rfl⟩)

/-- The pattern of a case, unless it is `_`, and its body. -/
theorem closed_cases : ∀ {cs : List (Case Node)},
    (casesConcrete cs = true ∧ ∀ x ∈ freeCases cs, P x) ↔
      ∀ c ∈ cs, (c.pattern.isWildcard = false → c.pattern.Closed P) ∧ ClosedSeq P c.body
  | [] => ⟨fun _ => List.forall_mem_nil _, fun _ => closedSeq_nil⟩
  | c :: cs => by
    rw [List.forall_mem_cons, ← closed_cases]
    have hpattern : (c.pattern.isConcrete = true ∧
        ∀ x ∈ (if c.pattern.isWildcard then [] else c.pattern.free), P x) ↔
        (c.pattern.isWildcard = false → c.pattern.Closed P) := by
      cases hw : c.pattern.isWildcard with
      | true => simp [isConcrete_of_isWildcard hw]
      | false => simp [Closed]
    exact closed_and.trans (and_congr_left' (closed_and.trans (and_congr_left' hpattern)))

/-! ## Nodes -/

@[simp] theorem closed_lit {value : Literal} : (lit t value).Closed P := ⟨rfl, List.forall_mem_nil _⟩

@[simp] theorem closed_enum {id : TypeId} {members : List Name} : (enum t id members).Closed P :=
  ⟨rfl, List.forall_mem_nil _⟩

@[simp] theorem closed_builtin {b : Builtin} : (builtin t b).Closed P :=
  ⟨rfl, List.forall_mem_nil _⟩

@[simp] theorem closed_unknown : ¬ (unknown t).Closed P := fun h => nomatch h.1

@[simp] theorem closed_selfType {ty : Node} : ¬ (selfType t ty).Closed P := fun h => nomatch h.1

@[simp] theorem closed_ident {x : Name} : (ident t x).Closed P ↔ P x :=
  ⟨fun h => h.2 x List.mem_cons_self, fun h => ⟨rfl, List.forall_mem_singleton.2 h⟩⟩

@[simp] theorem closed_list {items : List Node} :
    (list t items).Closed P ↔ ∀ n ∈ items, n.Closed P := closed_items

@[simp] theorem closed_block {items : List Node} : (block t items).Closed P ↔ ClosedSeq P items :=
  .rfl

@[simp] theorem closed_record {id : TypeId} {fields : List (Decl Node)} {range : Option Range} :
    (record t id fields range).Closed P ↔ ∀ d ∈ fields, d.ty.Closed P := closed_decls

@[simp] theorem closed_arg {x : Name} {ty : Node} : (arg t x ty).Closed P ↔ ty.Closed P := .rfl

@[simp] theorem closed_field {x : Name} {ty : Node} : (field t x ty).Closed P ↔ ty.Closed P := .rfl

@[simp] theorem closed_fnType {id : TypeId} {dom cod : Node} :
    (fnType t id dom cod).Closed P ↔ dom.Closed P ∧ cod.Closed P := closed_and

@[simp] theorem closed_call {f a : Node} : (call t f a).Closed P ↔ f.Closed P ∧ a.Closed P :=
  closed_and

@[simp] theorem closed_assign {target value : Node} {p : Bool} {link : Option DefId} :
    (assign t target value p link).Closed P ↔ target.isConcrete = true ∧ value.Closed P :=
  (and_congr_left' (Bool.and_eq_true _ _).to_iff).trans and_assoc

theorem closed_binOp {op : Operator} (hop : op ≠ .dot) {lhs rhs : Node} :
    (binOp t op lhs rhs).Closed P ↔ lhs.Closed P ∧ rhs.Closed P := by
  have hfree : (binOp t op lhs rhs).free = lhs.free ++ rhs.free :=
    congrArg (lhs.free ++ ·) (if_neg hop)
  rw [Closed, hfree]
  exact closed_and

@[simp] theorem closed_dot {lhs rhs : Node} :
    (binOp t .dot lhs rhs).Closed P ↔ lhs.Closed P ∧ rhs.isConcrete = true :=
  closed_and.trans (and_congr_right' (and_iff_left (List.forall_mem_nil _)))

@[simp] theorem closed_func {param : Decl Node} {body : List Node} :
    (func t param body).Closed P ↔
      param.ty.Closed P ∧ ClosedSeq (fun x => P x ∨ x = param.name) body := by
  refine closed_and.trans (and_congr_right' (closed_filter.trans ?_))
  simp only [bne_eq_false_iff_eq]
  rfl

@[simp] theorem closed_matchOn {scrutinee : Node} {cases : List (Case Node)} :
    (matchOn t scrutinee cases).Closed P ↔ scrutinee.Closed P ∧ ∀ c ∈ cases,
      (c.pattern.isWildcard = false → c.pattern.Closed P) ∧ ClosedSeq P c.body :=
  closed_and.trans (and_congr_right' closed_cases)

@[simp] theorem closed_whileDo {condition : Node} {body : List Node} :
    (whileDo t condition body).Closed P ↔ condition.Closed P ∧ ClosedSeq P body := closed_and

@[simp] theorem closed_ifElse {condition : Node} {thenBody elseBody : List Node} :
    (ifElse t condition thenBody elseBody).Closed P ↔
      condition.Closed P ∧ ClosedSeq P thenBody ∧ ClosedSeq P elseBody :=
  (closed_and.trans (and_congr_left' closed_and)).trans and_assoc

@[simp] theorem closed_inst {template : Node} {body : List Node} :
    (inst t template body).Closed P ↔
      template.Closed P ∧ ∀ n ∈ body, n.ident? = none → n.Closed P :=
  closed_and.trans (and_congr_right' closed_fields)

/-- A field of an instance is closed over what the instance is closed over. -/
theorem closed_fieldValue? {body : List Node} {name : Name} {value : Node}
    (h : ∀ n ∈ body, n.ident? = none → n.Closed P) (hv : fieldValue? body name = some value) :
    value.Closed P := by
  obtain ⟨_, _, _, _, hitem, -⟩ := exists_of_fieldValue? hv
  exact (closed_assign.1 (h _ hitem rfl)).2

end

end Residual.Node
