/-
Nodes that are alike. A likeness says what two programs may differ in: the identities and locations of
their nodes, and the names by which they use some of their bindings. Alike nodes are the same but for
that. What stands in a name's place without being one, the right side of a field access, the target of
an alias in the body of an instance or a member of an enum, is the same in both.

Binders keep their names, so that the names that evaluation makes up are the same on both sides; of
the names that are used, each has one partner.

The types that the checker makes for functions are named after locations. So the types of alike nodes
may also differ in these names, which no type of the program itself has.
-/
import Mathlib.Data.List.Forall2
import Residual.Check
import Residual.Proofs.FreshName
import Residual.Proofs.Relabeling

namespace Residual

/-- Other identities for the nodes of a program and for those that are still to be made. -/
structure Numbering where
  /-- What becomes of an identity. -/
  id : NodeId → NodeId
  /-- Identities from here on are those that are still to be made, -/
  since : Nat
  /-- and the other ones are ahead by this many. -/
  ahead : Nat
  injective : Function.Injective id
  made : ∀ i, since ≤ i → id i = i + ahead

/-- Other locations for the nodes of a program, and what becomes of the types that are named after
them. -/
structure Placement where
  /-- What becomes of a location. -/
  span : Span → Span
  /-- The names that types of the program may have. -/
  typeId : TypeId → Prop
  /-- Names of the types that the checker makes for functions, one in the other's place. -/
  inferred : TypeId → TypeId → Prop
  span_builtin : span .builtin = .builtin
  typeId_builtin : ∀ b : Builtin, typeId b.name
  inferred_span : ∀ s, inferred (Check.functionTypeId s) (Check.functionTypeId (span s))
  inferred_iff : ∀ {i i' j}, inferred i i' → typeId j → (i = j ↔ i' = j)

/-- Locations are the same. -/
def Placement.same : Placement where
  span s := s
  typeId _ := True
  inferred := Eq
  span_builtin := rfl
  typeId_builtin _ := trivial
  inferred_span _ := rfl
  inferred_iff := by
    rintro i i' j rfl -
    rfl

/-- What two programs may differ in. -/
structure Likeness extends Numbering, Placement where
  /-- A name, and the name that is used in its place. -/
  used : Name → Name → Prop
  /-- The names that binders may have. -/
  bound : Name → Prop
  used_iff : ∀ {x x' y y'}, used x x' → used y y' → (x = y ↔ x' = y')
  bound_used : ∀ {x}, bound x → used x x
  bound_suffixed : ∀ {x} k, bound x → bound (Env.suffixed x k)
  used_builtin : ∀ {x x'}, used x x' → Builtin.ofName? x = Builtin.ofName? x'
  used_wildcard : ∀ {x x'}, used x x' → (x = "_" ↔ x' = "_")

namespace Likeness

variable (ℓ : Likeness)

/-- Tags under the other identities and locations. -/
def tags : Relabeling := ⟨ℓ.id, ℓ.span⟩

/-- All names are used as they are. -/
def Plain : Prop := ∀ x x', ℓ.used x x' → x = x'

/-- Nothing differs: tags, names and the names of types are the same. Some names may not be used. -/
structure Exact : Prop where
  plain : ℓ.Plain
  tags_eq : ℓ.tags = .same
  inferred_eq : ∀ i i', ℓ.inferred i i' → i = i'

variable {ℓ} {i i' j : TypeId}

theorem inferred_beq (hi : ℓ.inferred i i') (hj : ℓ.typeId j) : (i' == j) = (i == j) := by
  rw [Bool.eq_iff_iff, beq_iff_eq, beq_iff_eq]
  exact (ℓ.inferred_iff hi hj).symm

theorem beq_inferred (hi : ℓ.inferred i i') (hj : ℓ.typeId j) : (j == i') = (j == i) := by
  rw [Bool.beq_comm, inferred_beq hi hj, Bool.beq_comm]

theorem Exact.span_eq (h : ℓ.Exact) (span : Span) : ℓ.span span = span :=
  congrArg (·.span span) h.tags_eq

end Likeness

/-- Declarations of the same name with related types. -/
inductive Decl.Alike (ℓ : Likeness) (R : Node → Node → Prop) : Decl Node → Decl Node → Prop where
  | mk {ty ty' : Node} (span : Span) (name : Name) (h : R ty ty') :
    Alike ℓ R ⟨span, name, ty⟩ ⟨ℓ.span span, name, ty'⟩

inductive Case.Alike (ℓ : Likeness) (R : Node → Node → Prop) : Case Node → Case Node → Prop where
  | mk {pattern pattern' : Node} {body body' : List Node} (span : Span) (hp : R pattern pattern')
    (hb : List.Forall₂ R body body') :
    Alike ℓ R ⟨span, pattern, body⟩ ⟨ℓ.span span, pattern', body'⟩

namespace Node

/-- Items of the bodies of two instances. The targets of aliases and the members of enums are no
names, so they are the same. Anything else is out of place there, and might be evaluated to a member;
it is let pass if names are used as they are. -/
inductive ItemAlike (ℓ : Likeness) (R : Node → Node → Prop) : Node → Node → Prop where
  | bind {value value' : Node} (t : Tag) (target : Node) (transparent : Bool) (link : Option DefId)
    (h : R value value') : ItemAlike ℓ R (assign t target value transparent link)
      (assign (t.relabel ℓ.tags) (target.relabel ℓ.tags) value' transparent link)
  | member (t : Tag) (x : Name) : ItemAlike ℓ R (ident t x) (ident (t.relabel ℓ.tags) x)
  | other {n n' : Node} (h : R n n') (hplain : ℓ.Plain) (halias : n.isAlias = false)
    (hident : n.ident? = none) : ItemAlike ℓ R n n'

/-- Nodes that differ in no more than a likeness allows. -/
inductive Alike (ℓ : Likeness) : Node → Node → Prop where
  | lit (t : Tag) (value : Literal) : Alike ℓ (lit t value) (lit (t.relabel ℓ.tags) value)
  | list {items items' : List Node} (t : Tag) (h : List.Forall₂ (Alike ℓ) items items') :
    Alike ℓ (list t items) (list (t.relabel ℓ.tags) items')
  | record {fields fields' : List (Decl Node)} (t : Tag) {id : TypeId} (hid : ℓ.typeId id)
    (range : Option Range) (h : List.Forall₂ (Decl.Alike ℓ (Alike ℓ)) fields fields') :
    Alike ℓ (record t id fields range) (record (t.relabel ℓ.tags) id fields' range)
  | enum (t : Tag) {id : TypeId} (hid : ℓ.typeId id) (members : List Name) :
    Alike ℓ (enum t id members) (enum (t.relabel ℓ.tags) id members)
  | fnType {dom dom' cod cod' : Node} (t : Tag) {id : TypeId} (hid : ℓ.typeId id)
    (hdom : Alike ℓ dom dom') (hcod : Alike ℓ cod cod') :
    Alike ℓ (fnType t id dom cod) (fnType (t.relabel ℓ.tags) id dom' cod')
  | selfType {ty ty' : Node} (t : Tag) (h : Alike ℓ ty ty') :
    Alike ℓ (selfType t ty) (selfType (t.relabel ℓ.tags) ty')
  | builtin (t : Tag) (b : Builtin) : Alike ℓ (builtin t b) (builtin (t.relabel ℓ.tags) b)
  | arg {ty ty' : Node} (t : Tag) (x : Name) (h : Alike ℓ ty ty') :
    Alike ℓ (arg t x ty) (arg (t.relabel ℓ.tags) x ty')
  | assign {value value' : Node} (t : Tag) (target : Node) (transparent : Bool)
    (link : Option DefId) (hx : ∀ x, target.ident? = some x → ℓ.bound x) (h : Alike ℓ value value') :
    Alike ℓ (assign t target value transparent link)
      (assign (t.relabel ℓ.tags) (target.relabel ℓ.tags) value' transparent link)
  | ident {x x' : Name} (t : Tag) (h : ℓ.used x x') : Alike ℓ (ident t x) (ident (t.relabel ℓ.tags) x')
  | func {param param' : Decl Node} {body body' : List Node} (t : Tag) (hx : ℓ.bound param.name)
    (hparam : Decl.Alike ℓ (Alike ℓ) param param') (hbody : List.Forall₂ (Alike ℓ) body body') :
    Alike ℓ (func t param body) (func (t.relabel ℓ.tags) param' body')
  | call {callee callee' arg arg' : Node} (t : Tag) (hcallee : Alike ℓ callee callee')
    (harg : Alike ℓ arg arg') : Alike ℓ (call t callee arg) (call (t.relabel ℓ.tags) callee' arg')
  | binOp {lhs lhs' rhs rhs' : Node} (t : Tag) {op : Operator} (hop : op ≠ .dot)
    (hl : Alike ℓ lhs lhs') (hr : Alike ℓ rhs rhs') :
    Alike ℓ (binOp t op lhs rhs) (binOp (t.relabel ℓ.tags) op lhs' rhs')
  | dot {lhs lhs' : Node} (t : Tag) (rhs : Node) (h : Alike ℓ lhs lhs') :
    Alike ℓ (binOp t .dot lhs rhs) (binOp (t.relabel ℓ.tags) .dot lhs' (rhs.relabel ℓ.tags))
  | field {ty ty' : Node} (t : Tag) (x : Name) (h : Alike ℓ ty ty') :
    Alike ℓ (field t x ty) (field (t.relabel ℓ.tags) x ty')
  | matchOn {scrutinee scrutinee' : Node} {cases cases' : List (Case Node)} (t : Tag)
    (hs : Alike ℓ scrutinee scrutinee')
    (hcases : List.Forall₂ (Case.Alike ℓ (Alike ℓ)) cases cases') :
    Alike ℓ (matchOn t scrutinee cases) (matchOn (t.relabel ℓ.tags) scrutinee' cases')
  | whileDo {condition condition' : Node} {body body' : List Node} (t : Tag)
    (hc : Alike ℓ condition condition') (hbody : List.Forall₂ (Alike ℓ) body body') :
    Alike ℓ (whileDo t condition body) (whileDo (t.relabel ℓ.tags) condition' body')
  | ifElse {condition condition' : Node} {thenBody thenBody' elseBody elseBody' : List Node}
    (t : Tag) (hc : Alike ℓ condition condition')
    (hthen : List.Forall₂ (Alike ℓ) thenBody thenBody')
    (helse : List.Forall₂ (Alike ℓ) elseBody elseBody') :
    Alike ℓ (ifElse t condition thenBody elseBody)
      (ifElse (t.relabel ℓ.tags) condition' thenBody' elseBody')
  | block {items items' : List Node} (t : Tag) (h : List.Forall₂ (Alike ℓ) items items') :
    Alike ℓ (block t items) (block (t.relabel ℓ.tags) items')
  | inst {template template' : Node} {body body' : List Node} (t : Tag)
    (htemplate : Alike ℓ template template')
    (hbody : List.Forall₂ (ItemAlike ℓ (Alike ℓ)) body body') :
    Alike ℓ (inst t template body) (inst (t.relabel ℓ.tags) template' body')
  | unknown (t : Tag) : Alike ℓ (unknown t) (unknown (t.relabel ℓ.tags))

/-- Types of alike nodes. The types that the checker made for functions may have different names. -/
inductive TypeAlike (ℓ : Likeness) : Node → Node → Prop where
  | source {n n' : Node} (h : Alike ℓ n n') : TypeAlike ℓ n n'
  | inferred {dom dom' cod cod' : Node} (t : Tag) {id id' : TypeId} (hid : ℓ.inferred id id')
    (hdom : TypeAlike ℓ dom dom') (hcod : TypeAlike ℓ cod cod') :
    TypeAlike ℓ (fnType t id dom cod) (fnType (t.relabel ℓ.tags) id' dom' cod')

/-! ## Views -/

namespace Alike

variable {ℓ : Likeness} {n n' : Node}

theorem tag_eq (h : Alike ℓ n n') : n'.tag = n.tag.relabel ℓ.tags := by cases h <;> rfl

theorem id_eq (h : Alike ℓ n n') : n'.id = ℓ.id n.id := congrArg Tag.id h.tag_eq

theorem span_eq (h : Alike ℓ n n') : n'.span = ℓ.span n.span := congrArg Tag.span h.tag_eq

theorem bool?_eq (h : Alike ℓ n n') : n'.bool? = n.bool? := by
  cases h with
  | lit t value => cases value <;> rfl
  | _ => rfl

theorem number?_eq (h : Alike ℓ n n') : n'.number? = n.number? := by
  cases h with
  | lit t value => cases value <;> rfl
  | _ => rfl

theorem isFunc_eq (h : Alike ℓ n n') : n'.isFunc = n.isFunc := by cases h <;> rfl

theorem isAlias_eq (h : Alike ℓ n n') : n'.isAlias = n.isAlias := by cases h <;> rfl

theorem isType_eq (h : Alike ℓ n n') : n'.isType = n.isType := by cases h <;> rfl

theorem isPlaceholder_eq (h : Alike ℓ n n') : n'.isPlaceholder = n.isPlaceholder := by cases h <;> rfl

theorem isWildcard_eq (h : Alike ℓ n n') : n'.isWildcard = n.isWildcard := by
  cases h with
  | ident t hx =>
    rw [isWildcard, isWildcard, ident?, ident?, Bool.eq_iff_iff]
    simpa using (ℓ.used_wildcard hx).symm
  | _ => rfl

/-- The name that an alias binds is the same. -/
theorem boundName?_eq (h : Alike ℓ n n') : n'.boundName? = n.boundName? := by
  cases h with
  | assign t target => exact ident?_relabel _ target
  | _ => rfl

theorem bound_of_boundName? (h : Alike ℓ n n') {x : Name} (hx : n.boundName? = some x) :
    ℓ.bound x := by
  cases h with
  | assign t target transparent link hbound => exact hbound x hx
  | _ => cases hx

/-- Where names are used as they are, alike nodes may stand in the body of an instance. -/
theorem item (h : Alike ℓ n n') (hplain : ℓ.Plain) : ItemAlike ℓ (Alike ℓ) n n' := by
  have halike := h
  cases h with
  | assign t target transparent link hx h => exact .bind t target transparent link h
  | ident t h =>
    cases hplain _ _ h
    exact .member t _
  | _ => exact .other halike hplain rfl rfl

end Alike

theorem ItemAlike.span_eq {ℓ : Likeness} {n n' : Node} (h : ItemAlike ℓ (Alike ℓ) n n') :
    n'.span = ℓ.span n.span := by
  cases h with
  | bind | member => rfl
  | other h => exact h.span_eq

theorem ItemAlike.ident?_eq {ℓ : Likeness} {n n' : Node} (h : ItemAlike ℓ (Alike ℓ) n n') :
    n'.ident? = n.ident? := by
  cases h with
  | bind | member => rfl
  | other h hplain halias hident =>
    cases h with
    | ident => cases hident
    | _ => rfl

theorem Alike.compatible_eq {ℓ : Likeness} {a a' b b' : Node} (ha : Alike ℓ a a')
    (hb : Alike ℓ b b') : compatible a' b' = compatible a b := by
  cases ha with
  | fnType t hid hdom hcod =>
    cases hb with
    | fnType t' hid' hdom' hcod' =>
      have ih := compatible_eq hcod hcod'
      exact ih
    | _ => rfl
  | builtin t b => cases b <;> cases hb <;> rfl
  | _ => cases hb <;> rfl
termination_by sizeOf a
decreasing_by simp +arith

namespace TypeAlike

variable {ℓ : Likeness}

/-- A type of the program, held against one that may be of the checker. -/
theorem compatible_source {a a' b b' : Node} (ha : Alike ℓ a a') (hb : TypeAlike ℓ b b') :
    compatible a' b' = compatible a b := by
  induction hb generalizing a a' with
  | source hb => exact ha.compatible_eq hb
  | inferred t hid hdom hcod _ ih =>
    cases ha with
    | fnType t' hid' hdom' hcod' => exact ih hcod'
    | builtin t' b =>
      cases b with
      | any | function => rfl
      | _ => exact Likeness.beq_inferred hid (ℓ.typeId_builtin _)
    | record t' hid' | enum t' hid' => exact Likeness.beq_inferred hid hid'
    | _ => rfl

/-- Whether types are compatible hangs on no name that the checker made. -/
theorem compatible_eq {a a' b b' : Node} (ha : TypeAlike ℓ a a') (hb : TypeAlike ℓ b b') :
    compatible a' b' = compatible a b := by
  induction ha generalizing b b' with
  | source ha => exact compatible_source ha hb
  | inferred t hid hdom hcod _ ih =>
    cases hb with
    | source hb =>
      cases hb with
      | fnType t' hid' hdom' hcod' => exact ih (.source hcod')
      | builtin t' b => exact Likeness.inferred_beq hid (ℓ.typeId_builtin b)
      | record t' hid' | enum t' hid' => exact Likeness.inferred_beq hid hid'
      | _ => rfl
    | inferred t' hid' hdom' hcod' => exact ih hcod'

end TypeAlike

/-! ## Lists of parts -/

section

variable {ℓ : Likeness} {R : Node → Node → Prop}

theorem isAlias_any_eq {items items' : List Node} (h : List.Forall₂ (Alike ℓ) items items') :
    items'.any (·.isAlias) = items.any (·.isAlias) := by
  induction h with
  | nil => rfl
  | cons h _ ih => rw [List.any_cons, List.any_cons, h.isAlias_eq, ih]

theorem forall₂_getLast? {items items' : List Node} (h : List.Forall₂ R items items') :
    Option.Rel R items.getLast? items'.getLast? := by
  induction h with
  | nil => exact .none
  | @cons a a' as as' h hs ih =>
    cases hs with
    | nil => exact .some h
    | cons _ _ => exact ih

theorem forall₂_dropLast {items items' : List Node} (h : List.Forall₂ R items items') :
    List.Forall₂ R items.dropLast items'.dropLast := by
  induction h with
  | nil => exact .nil
  | @cons a a' as as' h hs ih =>
    cases hs with
    | nil => exact .nil
    | cons _ _ => exact .cons h ih

theorem fieldValue?_alike {body body' : List Node}
    (h : List.Forall₂ (ItemAlike ℓ (Alike ℓ)) body body') (x : Name) :
    Option.Rel (Alike ℓ) (fieldValue? body x) (fieldValue? body' x) := by
  unfold fieldValue?
  induction h with
  | nil => exact .none
  | @cons item item' items items' h _ ih =>
    rw [List.findSome?_cons, List.findSome?_cons]
    cases h with
    | bind t target transparent link h =>
      simp only [ident?_relabel]
      cases target.ident? == some x with
      | true => exact .some h
      | false => exact ih
    | member => exact ih
    | other h hplain halias =>
      cases h with
      | assign => cases halias
      | _ => exact ih

theorem fieldDecl?_alike {fields fields' : List (Decl Node)}
    (h : List.Forall₂ (Decl.Alike ℓ R) fields fields') (x : Name) :
    Option.Rel (Decl.Alike ℓ R) (fieldDecl? fields x) (fieldDecl? fields' x) := by
  unfold fieldDecl?
  induction h with
  | nil => exact .none
  | @cons d d' ds ds' h _ ih =>
    cases h with
    | mk span name h =>
      rw [List.find?_cons, List.find?_cons]
      cases name == x with
      | true => exact .some (.mk span name h)
      | false => exact ih

end

/-! ## Known nodes and equality

The parts of a node are smaller than the node, so what is said of nodes is said of their lists of parts
first, for parts up to the size of the list. -/

namespace Alike

variable {ℓ : Likeness}

theorem allStatic_eq {items items' : List Node} (h : List.Forall₂ (Alike ℓ) items items')
    (ih : ∀ {n n' : Node}, sizeOf n < sizeOf items → Alike ℓ n n' → n'.isStatic = n.isStatic) :
    allStatic items' = allStatic items := by
  induction h with
  | nil => rfl
  | cons h _ ihs =>
    rw [allStatic, allStatic, ih (by simp +arith) h, ihs fun hlt => ih (by simp; omega)]

theorem allFieldsStatic_eq {items items' : List Node}
    (h : List.Forall₂ (ItemAlike ℓ (Alike ℓ)) items items')
    (ih : ∀ {n n' : Node}, sizeOf n < sizeOf items → Alike ℓ n n' → n'.isStatic = n.isStatic) :
    allFieldsStatic items' = allFieldsStatic items := by
  induction h with
  | nil => rfl
  | cons h _ ihs =>
    have ihs := ihs fun hlt => ih (by simp; omega)
    cases h with
    | bind t target transparent link h =>
      rw [allFieldsStatic, allFieldsStatic, ih (by simp +arith) h, ihs]
    | member => exact ihs
    | other h hplain halias hident =>
      cases h with
      | assign => cases halias
      | ident => cases hident
      | _ => rfl

theorem isStatic_eq {n n' : Node} (h : Alike ℓ n n') : n'.isStatic = n.isStatic := by
  cases h with
  | list t h => exact allStatic_eq h fun hlt h => isStatic_eq h
  | inst t htemplate hbody =>
    rw [isStatic, isStatic, htemplate.isType_eq, allFieldsStatic_eq hbody fun hlt h => isStatic_eq h]
  | _ => rfl
termination_by sizeOf n
decreasing_by all_goals (simp; omega)

variable {links links' : Links}

/-- What is known of equality for parts up to a size. -/
def EqualUpto (ℓ : Likeness) (links links' : Links) (k : Nat) : Prop :=
  ∀ {a a' b b' : Node}, sizeOf a < k → Alike ℓ a a' → Alike ℓ b b' →
    equal links' a' b' = equal links a b

theorem EqualUpto.mono {k k' : Nat} (h : EqualUpto ℓ links links' k') (hle : k ≤ k') :
    EqualUpto ℓ links links' k := fun hlt => h (Nat.lt_of_lt_of_le hlt hle)

theorem equalList_eq {as as' bs bs' : List Node} (ha : List.Forall₂ (Alike ℓ) as as')
    (hb : List.Forall₂ (Alike ℓ) bs bs') (ih : EqualUpto ℓ links links' (sizeOf as)) :
    equalList links' as' bs' = equalList links as bs := by
  induction ha generalizing bs bs' with
  | nil => cases hb <;> rfl
  | cons h _ ihs =>
    cases hb with
    | nil => rfl
    | cons h' hs' =>
      rw [equalList, equalList, ih (by simp +arith) h h', ihs hs' (ih.mono (by simp))]

theorem equalDecl_eq {a a' b b' : Decl Node} (ha : Decl.Alike ℓ (Alike ℓ) a a')
    (hb : Decl.Alike ℓ (Alike ℓ) b b') (ih : EqualUpto ℓ links links' (sizeOf a)) :
    equalDecl links' a' b' = equalDecl links a b := by
  cases ha with
  | mk span name h =>
    cases hb with
    | mk span' name' h' => rw [equalDecl, equalDecl, ih (by simp +arith) h h']

theorem equalDecls_eq {as as' bs bs' : List (Decl Node)}
    (ha : List.Forall₂ (Decl.Alike ℓ (Alike ℓ)) as as')
    (hb : List.Forall₂ (Decl.Alike ℓ (Alike ℓ)) bs bs')
    (ih : EqualUpto ℓ links links' (sizeOf as)) :
    equalDecls links' as' bs' = equalDecls links as bs := by
  induction ha generalizing bs bs' with
  | nil => cases hb <;> rfl
  | cons h _ ihs =>
    cases hb with
    | nil => rfl
    | cons h' hs' =>
      rw [equalDecls, equalDecls, equalDecl_eq h h' (ih.mono (by simp +arith)),
        ihs hs' (ih.mono (by simp))]

theorem equalCases_eq {as as' bs bs' : List (Case Node)}
    (ha : List.Forall₂ (Case.Alike ℓ (Alike ℓ)) as as')
    (hb : List.Forall₂ (Case.Alike ℓ (Alike ℓ)) bs bs')
    (ih : EqualUpto ℓ links links' (sizeOf as)) :
    equalCases links' as' bs' = equalCases links as bs := by
  induction ha generalizing bs bs' with
  | nil => cases hb <;> rfl
  | cons h _ ihs =>
    cases hb with
    | nil => rfl
    | cons h' hs' =>
      rw [equalCases, equalCases, ihs hs' (ih.mono (by simp))]
      cases h with
      | mk span hp hbody =>
        cases h' with
        | mk span' hp' hbody' =>
          rw [equalCase, equalCase, ih (by simp +arith) hp hp',
            equalList_eq hbody hbody' (ih.mono (by simp +arith))]

theorem equalItem_eq (hl : Links.Follow ℓ.tags links links') {a a' b b' : Node}
    (ha : ItemAlike ℓ (Alike ℓ) a a') (hb : ItemAlike ℓ (Alike ℓ) b b')
    (ih : EqualUpto ℓ links links' (sizeOf a + 1)) : equal links' a' b' = equal links a b := by
  cases ha with
  | bind t target transparent link h =>
    cases hb with
    | bind t' target' transparent' link' h' =>
      simp only [equal, equal_relabel hl, ih (by simp +arith) h h', Tag.relabel, hl _ _]
    | member => rfl
    | other h' hplain halias =>
      cases h' with
      | assign => cases halias
      | _ => rfl
  | member =>
    cases hb with
    | bind | member => rfl
    | other h' hplain halias hident =>
      cases h' with
      | ident => cases hident
      | _ => rfl
  | other h hplain halias hident =>
    cases hb with
    | bind =>
      cases h with
      | assign => cases halias
      | _ => rfl
    | member =>
      cases h with
      | ident => cases hident
      | _ => rfl
    | other h' => exact ih (Nat.lt_succ_self _) h h'

theorem equalItems_eq (hl : Links.Follow ℓ.tags links links') {as as' bs bs' : List Node}
    (ha : List.Forall₂ (ItemAlike ℓ (Alike ℓ)) as as')
    (hb : List.Forall₂ (ItemAlike ℓ (Alike ℓ)) bs bs')
    (ih : EqualUpto ℓ links links' (sizeOf as)) :
    equalList links' as' bs' = equalList links as bs := by
  induction ha generalizing bs bs' with
  | nil => cases hb <;> rfl
  | cons h _ ihs =>
    cases hb with
    | nil => rfl
    | cons h' hs' =>
      rw [equalList, equalList, equalItem_eq hl h h' (ih.mono (by simp +arith)),
        ihs hs' (ih.mono (by simp))]

/-- Equality by content sees no likeness. -/
theorem equal_eq (hl : Links.Follow ℓ.tags links links') {a a' b b' : Node} (ha : Alike ℓ a a')
    (hb : Alike ℓ b b') : equal links' a' b' = equal links a b := by
  have ih : EqualUpto ℓ links links' (sizeOf a) := fun hlt h h' => equal_eq hl h h'
  cases ha with
  | lit | enum | builtin | unknown => cases hb <;> rfl
  | list t h =>
    cases hb with
    | list t' h' => exact equalList_eq h h' (ih.mono (by simp))
    | _ => rfl
  | record t hid range h =>
    cases hb with
    | record t' hid' range' h' =>
      rw [equal, equal, equalDecls_eq h h' (ih.mono (by simp +arith))]
    | _ => rfl
  | fnType t hid hdom hcod =>
    cases hb with
    | fnType t' hid' hdom' hcod' =>
      rw [equal, equal, ih (by simp +arith) hdom hdom', ih (by simp +arith) hcod hcod']
    | _ => rfl
  | selfType t h =>
    cases hb with
    | selfType t' h' => rw [equal, equal, ih (by simp +arith) h h']
    | _ => rfl
  | arg t x h =>
    cases hb with
    | arg t' x' h' => rw [equal, equal, ih (by simp +arith) h h']
    | _ => rfl
  | field t x h =>
    cases hb with
    | field t' x' h' => rw [equal, equal, ih (by simp +arith) h h']
    | _ => rfl
  | assign t target transparent link hx h =>
    cases hb with
    | assign t' target' transparent' link' hx' h' =>
      simp only [equal, equal_relabel hl, ih (by simp +arith) h h', Tag.relabel, hl _ _]
    | _ => rfl
  | ident t h =>
    cases hb with
    | ident t' h' =>
      rw [equal, equal, Bool.eq_iff_iff, beq_iff_eq, beq_iff_eq]
      exact (ℓ.used_iff h h').symm
    | _ => rfl
  | func t hx hparam hbody =>
    cases hb with
    | func t' hx' hparam' hbody' =>
      rw [equal, equal, equalDecl_eq hparam hparam' (ih.mono (by simp +arith)),
        equalList_eq hbody hbody' (ih.mono (by simp))]
    | _ => rfl
  | call t hf harg =>
    cases hb with
    | call t' hf' harg' =>
      rw [equal, equal, ih (by simp +arith) hf hf', ih (by simp +arith) harg harg']
    | _ => rfl
  | binOp t hop hl hr =>
    cases hb with
    | binOp t' hop' hl' hr' =>
      rw [equal, equal, ih (by simp +arith) hl hl', ih (by simp +arith) hr hr']
    | dot t' rhs h' =>
      rw [equal, equal, beq_false_of_ne hop]
      rfl
    | _ => rfl
  | dot t rhs h =>
    cases hb with
    | binOp t' hop' hl' hr' =>
      rw [equal, equal, beq_false_of_ne hop'.symm]
      rfl
    | dot t' rhs' h' => rw [equal, equal, ih (by simp +arith) h h', equal_relabel hl]
    | _ => rfl
  | matchOn t hs hcases =>
    cases hb with
    | matchOn t' hs' hcases' =>
      rw [equal, equal, ih (by simp +arith) hs hs', equalCases_eq hcases hcases' (ih.mono (by simp))]
    | _ => rfl
  | whileDo t hc hbody =>
    cases hb with
    | whileDo t' hc' hbody' =>
      rw [equal, equal, ih (by simp +arith) hc hc', equalList_eq hbody hbody' (ih.mono (by simp))]
    | _ => rfl
  | ifElse t hc hthen helse =>
    cases hb with
    | ifElse t' hc' hthen' helse' =>
      rw [equal, equal, ih (by simp +arith) hc hc',
        equalList_eq hthen hthen' (ih.mono (by simp +arith)),
        equalList_eq helse helse' (ih.mono (by simp))]
    | _ => rfl
  | block t h =>
    cases hb with
    | block t' h' => exact equalList_eq h h' (ih.mono (by simp))
    | _ => rfl
  | inst t htemplate hbody =>
    cases hb with
    | inst t' htemplate' hbody' =>
      rw [equal, equal, ih (by simp +arith) htemplate htemplate',
        equalItems_eq hl hbody hbody' (ih.mono (by simp))]
    | _ => rfl
termination_by sizeOf a

end Alike

end Node

end Residual
