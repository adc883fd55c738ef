/-
The nodes that a pass over a node may look at. The field of an access, the members of an instance and
the targets of aliases stand for themselves, and no pass looks at them. A node is a part of itself; what
holds of all parts of a node holds of the node and of all parts of its children.
-/
import Mathlib.Data.List.Basic
import Residual.Env

namespace Residual.Node

/-- The nodes right below a node that a pass over it may look at. -/
def children : Node → List Node
  | lit .. | enum .. | builtin .. | ident .. | unknown .. => []
  | list _ items | block _ items => items
  | record _ _ fields _ => fields.map (·.ty)
  | fnType _ _ dom cod => [dom, cod]
  | selfType _ ty | arg _ _ ty | field _ _ ty => [ty]
  | assign _ _ value _ _ => [value]
  | func _ param body => param.ty :: body
  | call _ f a => [f, a]
  | binOp _ op lhs rhs => if op = .dot then [lhs] else [lhs, rhs]
  | matchOn _ scrutinee cases => scrutinee :: cases.flatMap fun c => c.pattern :: c.body
  | whileDo _ condition body => condition :: body
  | ifElse _ condition thenBody elseBody => condition :: (thenBody ++ elseBody)
  | inst _ template body => template :: body.filter (·.ident?.isNone)

section

variable {t : Tag} {m n : Node}

theorem mem_children_record {id : TypeId} {fields : List (Decl Node)} {range : Option Range}
    {d : Decl Node} (hd : d ∈ fields) : d.ty ∈ (record t id fields range).children :=
  List.mem_map_of_mem hd

theorem mem_children_binOp {op : Operator} {lhs rhs : Node} :
    lhs ∈ (binOp t op lhs rhs).children := by
  rw [children]
  split <;> exact List.mem_cons_self

theorem mem_children_rhs {op : Operator} {lhs rhs : Node} (hop : op ≠ .dot) :
    rhs ∈ (binOp t op lhs rhs).children := by
  rw [children, if_neg hop]
  exact List.mem_cons_of_mem _ List.mem_cons_self

theorem mem_children_matchOn {scrutinee : Node} {cases : List (Case Node)} {c : Case Node}
    (hc : c ∈ cases) (hm : m ∈ c.pattern :: c.body) : m ∈ (matchOn t scrutinee cases).children :=
  List.mem_cons_of_mem _ (List.mem_flatMap_of_mem hc hm)

theorem mem_children_then {condition : Node} {thenBody elseBody : List Node} (hm : m ∈ thenBody) :
    m ∈ (ifElse t condition thenBody elseBody).children :=
  List.mem_cons_of_mem _ (List.mem_append_left _ hm)

theorem mem_children_else {condition : Node} {thenBody elseBody : List Node} (hm : m ∈ elseBody) :
    m ∈ (ifElse t condition thenBody elseBody).children :=
  List.mem_cons_of_mem _ (List.mem_append_right _ hm)

theorem mem_children_inst {template : Node} {body : List Node} (hm : m ∈ body)
    (hident : m.ident? = none) : m ∈ (inst t template body).children := by
  refine List.mem_cons_of_mem _ (List.mem_filter.2 ⟨hm, ?_⟩)
  rw [hident]
  rfl

/-- The value of a field is a child of the alias that gives it. -/
theorem exists_child_of_fieldValue? {body : List Node} {x : Name} {value : Node}
    (hv : fieldValue? body x = some value) :
    ∃ item, (∀ t template, item ∈ (inst t template body).children) ∧ value ∈ item.children := by
  obtain ⟨_, _, _, _, hitem, -⟩ := exists_of_fieldValue? hv
  exact ⟨_, fun _ _ => mem_children_inst hitem rfl, List.mem_cons_self⟩

/-- Children are smaller. -/
theorem sizeOf_children (hm : m ∈ n.children) : sizeOf m < sizeOf n := by
  have hlist {ns : List Node} (hm : m ∈ ns) := List.sizeOf_lt_of_mem hm
  cases n with
  | lit | enum | builtin | ident | unknown => cases hm
  | list t items | block t items =>
    have hm : m ∈ items := hm
    have := hlist hm
    simp only [list.sizeOf_spec, block.sizeOf_spec]
    omega
  | record t id fields range =>
    obtain ⟨d, hd, rfl⟩ := List.mem_map.1 hm
    have := List.sizeOf_lt_of_mem hd
    cases d
    simp only [record.sizeOf_spec, Decl.mk.sizeOf_spec] at *
    omega
  | fnType | call =>
    rcases List.mem_pair.1 hm with rfl | rfl <;>
      simp only [fnType.sizeOf_spec, call.sizeOf_spec] <;> omega
  | selfType | arg | field | assign =>
    rw [List.mem_singleton.1 hm]
    simp only [selfType.sizeOf_spec, arg.sizeOf_spec, field.sizeOf_spec, assign.sizeOf_spec]
    omega
  | func t param body =>
    cases param
    simp only [func.sizeOf_spec, Decl.mk.sizeOf_spec]
    rcases List.mem_cons.1 hm with rfl | hm
    · omega
    · have := hlist hm
      omega
  | binOp t op lhs rhs =>
    simp only [binOp.sizeOf_spec]
    rw [children] at hm
    split at hm
    · rw [List.mem_singleton.1 hm]
      omega
    · rcases List.mem_pair.1 hm with rfl | rfl <;> omega
  | matchOn t scrutinee cases =>
    simp only [matchOn.sizeOf_spec]
    rcases List.mem_cons.1 hm with rfl | hm
    · omega
    · obtain ⟨⟨span, pattern, body⟩, hc, hm⟩ := List.mem_flatMap.1 hm
      have hm : m ∈ pattern :: body := hm
      have hsize := List.sizeOf_lt_of_mem hc
      simp only [Case.mk.sizeOf_spec] at hsize
      rcases List.mem_cons.1 hm with rfl | hm
      · omega
      · have := hlist hm
        omega
  | whileDo t condition body =>
    simp only [whileDo.sizeOf_spec]
    rcases List.mem_cons.1 hm with rfl | hm
    · omega
    · have := hlist hm
      omega
  | ifElse t condition thenBody elseBody =>
    simp only [ifElse.sizeOf_spec]
    rcases List.mem_cons.1 hm with rfl | hm
    · omega
    · rcases List.mem_append.1 hm with hm | hm <;>
      · have := hlist hm
        omega
  | inst t template body =>
    simp only [inst.sizeOf_spec]
    rcases List.mem_cons.1 hm with rfl | hm
    · omega
    · have := hlist (List.mem_filter.1 hm).1
      omega

end

/-! ## Parts -/

/-- The node is the other one, or a part of one of its children. -/
inductive Part (m : Node) : Node → Prop where
  | refl : Part m m
  | child {k n : Node} (hk : k ∈ n.children) (h : Part m k) : Part m n

namespace Part

variable {k m n : Node}

theorem trans (h : m.Part n) (h' : k.Part m) : k.Part n := by
  induction h with
  | refl => exact h'
  | child hk _ ih => exact .child hk ih

theorem sizeOf_le (h : m.Part n) : sizeOf m ≤ sizeOf n := by
  induction h with
  | refl => exact Nat.le_refl _
  | child hk _ ih => exact Nat.le_of_lt (Nat.lt_of_le_of_lt ih (sizeOf_children hk))

/-- A node is not inside itself. -/
theorem not_child (hk : k ∈ n.children) : ¬ n.Part k := fun h =>
  Nat.lt_irrefl _ (Nat.lt_of_le_of_lt h.sizeOf_le (sizeOf_children hk))

end Part

/-- All parts of the node satisfy `p`. -/
def All (p : Node → Prop) (n : Node) : Prop := ∀ m, m.Part n → p m

namespace All

variable {p q : Node → Prop} {m n : Node}

theorem self (h : n.All p) : p n := h n .refl

theorem part (h : n.All p) (hm : m.Part n) : m.All p := fun k hk => h k (hm.trans hk)

theorem child (h : n.All p) (hm : m ∈ n.children) : m.All p := h.part (.child hm .refl)

theorem mono (h : n.All p) (hpq : ∀ m, p m → q m) : n.All q := fun m hm => hpq m (h m hm)

/-- The value of a field is looked at with its instance. -/
theorem fieldValue? {t : Tag} {template value : Node} {body : List Node} {x : Name}
    (h : (inst t template body).All p) (hv : Node.fieldValue? body x = some value) :
    value.All p := by
  obtain ⟨item, hitem, hvalue⟩ := exists_child_of_fieldValue? hv
  exact (h.child (hitem t template)).child hvalue

end All

theorem all_iff {p : Node → Prop} {n : Node} : n.All p ↔ p n ∧ ∀ m ∈ n.children, m.All p := by
  constructor
  · exact fun h => ⟨h.self, fun m hm => h.child hm⟩
  · rintro ⟨hself, hchildren⟩ m hm
    cases hm with
    | refl => exact hself
    | child hk hm => exact hchildren _ hk m hm

/-! ## Listing the parts -/

/-- The parts of a node that lie less than `depth` levels down. -/
def partsWithin : (depth : Nat) → Node → List Node
  | 0, _ => []
  | depth + 1, n => n :: n.children.flatMap (partsWithin depth)

/-- Whether all parts lie less than `depth` levels down. -/
def isWithin : (depth : Nat) → Node → Bool
  | 0, _ => false
  | depth + 1, n => n.children.all (isWithin depth)

theorem Part.mem_partsWithin {m n : Node} (hm : m.Part n) : ∀ {depth : Nat},
    n.isWithin depth = true → m ∈ n.partsWithin depth := by
  induction hm with
  | refl =>
    rintro (_ | depth) h
    · cases h
    · exact List.mem_cons_self
  | child hk _ ih =>
    rintro (_ | depth) h
    · cases h
    · exact List.mem_cons_of_mem _ (List.mem_flatMap_of_mem hk (ih (List.all_eq_true.1 h _ hk)))

theorem all_of_partsWithin {p : Node → Prop} {n : Node} (depth : Nat)
    (hwithin : n.isWithin depth = true) (h : ∀ m ∈ n.partsWithin depth, p m) : n.All p :=
  fun m hm => h m (hm.mem_partsWithin hwithin)

end Residual.Node
