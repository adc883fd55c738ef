/-
Other tags for the same nodes. A relabeling maps identities and locations, and takes a node to the same
tree under other tags. The content of a node does not depend on its tags, so no view of a node sees a
relabeling, and equality by content does not either as long as different identities stay different.

Without its identities and locations a node is `bare`. Two nodes are the same up to their tags if they
are the same once they are bare.
-/
import Mathlib.Logic.Function.Basic
import Residual.Node.Equality

namespace Residual

/-- What becomes of the identities and of the locations of nodes. -/
structure Relabeling where
  id : NodeId → NodeId
  span : Span → Span

def Tag.relabel (r : Relabeling) (t : Tag) : Tag := ⟨r.id t.id, r.span t.span⟩

namespace Node

/-! ## Relabeling -/

mutual

/-- The same content under other tags. -/
def relabel (r : Relabeling) : Node → Node
  | lit t value => lit (t.relabel r) value
  | list t items => list (t.relabel r) (relabelList r items)
  | record t id fields range => record (t.relabel r) id (relabelDecls r fields) range
  | enum t id members => enum (t.relabel r) id members
  | fnType t id dom cod => fnType (t.relabel r) id (relabel r dom) (relabel r cod)
  | selfType t ty => selfType (t.relabel r) (relabel r ty)
  | builtin t b => builtin (t.relabel r) b
  | arg t name ty => arg (t.relabel r) name (relabel r ty)
  | assign t target value transparent link =>
    assign (t.relabel r) (relabel r target) (relabel r value) transparent link
  | ident t name => ident (t.relabel r) name
  | func t param body => func (t.relabel r) (relabelDecl r param) (relabelList r body)
  | call t f a => call (t.relabel r) (relabel r f) (relabel r a)
  | binOp t op lhs rhs => binOp (t.relabel r) op (relabel r lhs) (relabel r rhs)
  | field t name ty => field (t.relabel r) name (relabel r ty)
  | matchOn t scrutinee cases => matchOn (t.relabel r) (relabel r scrutinee) (relabelCases r cases)
  | whileDo t condition body => whileDo (t.relabel r) (relabel r condition) (relabelList r body)
  | ifElse t condition thenBody elseBody =>
    ifElse (t.relabel r) (relabel r condition) (relabelList r thenBody) (relabelList r elseBody)
  | block t items => block (t.relabel r) (relabelList r items)
  | inst t template body => inst (t.relabel r) (relabel r template) (relabelList r body)
  | unknown t => unknown (t.relabel r)

def relabelList (r : Relabeling) : List Node → List Node
  | [] => []
  | n :: ns => relabel r n :: relabelList r ns

def relabelDecl (r : Relabeling) : Decl Node → Decl Node
  | ⟨span, name, ty⟩ => ⟨r.span span, name, relabel r ty⟩

def relabelDecls (r : Relabeling) : List (Decl Node) → List (Decl Node)
  | [] => []
  | d :: ds => relabelDecl r d :: relabelDecls r ds

def relabelCase (r : Relabeling) : Case Node → Case Node
  | ⟨span, pattern, body⟩ => ⟨r.span span, relabel r pattern, relabelList r body⟩

def relabelCases (r : Relabeling) : List (Case Node) → List (Case Node)
  | [] => []
  | c :: cs => relabelCase r c :: relabelCases r cs

end

variable (r : Relabeling)

@[simp] theorem relabelList_eq (ns : List Node) : relabelList r ns = ns.map (relabel r) := by
  induction ns with
  | nil => rfl
  | cons n ns ih => rw [relabelList, ih, List.map_cons]

@[simp] theorem relabelDecls_eq (ds : List (Decl Node)) : relabelDecls r ds = ds.map (relabelDecl r) := by
  induction ds with
  | nil => rfl
  | cons d ds ih => rw [relabelDecls, ih, List.map_cons]

@[simp] theorem relabelCases_eq (cs : List (Case Node)) : relabelCases r cs = cs.map (relabelCase r) := by
  induction cs with
  | nil => rfl
  | cons c cs ih => rw [relabelCases, ih, List.map_cons]

theorem relabelDecl_eq (d : Decl Node) :
    relabelDecl r d = ⟨r.span d.span, d.name, d.ty.relabel r⟩ := by
  cases d with
  | mk span name ty => rw [relabelDecl]

theorem relabelCase_eq (c : Case Node) :
    relabelCase r c = ⟨r.span c.span, c.pattern.relabel r, c.body.map (relabel r)⟩ := by
  cases c with
  | mk span pattern body => rw [relabelCase, relabelList_eq]

/-! ## Views -/

@[simp] theorem tag_relabel (n : Node) : (n.relabel r).tag = n.tag.relabel r := by cases n <;> rfl

@[simp] theorem id_relabel (n : Node) : (n.relabel r).id = r.id n.id := by cases n <;> rfl

@[simp] theorem span_relabel (n : Node) : (n.relabel r).span = r.span n.span := by cases n <;> rfl

@[simp] theorem ident?_relabel (n : Node) : (n.relabel r).ident? = n.ident? := by cases n <;> rfl

@[simp] theorem bool?_relabel (n : Node) : (n.relabel r).bool? = n.bool? := by
  cases n with
  | lit t value => cases value <;> rfl
  | _ => rfl

@[simp] theorem number?_relabel (n : Node) : (n.relabel r).number? = n.number? := by
  cases n with
  | lit t value => cases value <;> rfl
  | _ => rfl

@[simp] theorem isFunc_relabel (n : Node) : (n.relabel r).isFunc = n.isFunc := by cases n <;> rfl

@[simp] theorem isAlias_relabel (n : Node) : (n.relabel r).isAlias = n.isAlias := by cases n <;> rfl

@[simp] theorem isType_relabel (n : Node) : (n.relabel r).isType = n.isType := by cases n <;> rfl

@[simp] theorem isPlaceholder_relabel (n : Node) : (n.relabel r).isPlaceholder = n.isPlaceholder := by
  cases n <;> rfl

@[simp] theorem isWildcard_relabel (n : Node) : (n.relabel r).isWildcard = n.isWildcard := by
  rw [isWildcard, ident?_relabel, isWildcard]

mutual

@[simp] theorem isStatic_relabel : ∀ n : Node, (n.relabel r).isStatic = n.isStatic
  | lit .. | builtin .. | record .. | enum .. | fnType .. | func .. | selfType .. | arg .. | assign ..
  | ident .. | call .. | binOp .. | field .. | matchOn .. | whileDo .. | ifElse .. | block ..
  | unknown .. => rfl
  | list _ items => allStatic_relabelList items
  | inst _ template body => by
    rw [relabel, isStatic, isType_relabel, allFieldsStatic_relabelList body, isStatic]

theorem allStatic_relabelList (ns : List Node) : allStatic (relabelList r ns) = allStatic ns := by
  cases ns with
  | nil => rfl
  | cons n ns =>
    rw [relabelList, allStatic, isStatic_relabel n, allStatic_relabelList ns, allStatic]

theorem allFieldsStatic_relabelList (ns : List Node) :
    allFieldsStatic (relabelList r ns) = allFieldsStatic ns := by
  cases ns with
  | nil => rfl
  | cons n ns =>
    cases n with
    | assign _ _ value _ _ =>
      rw [relabelList, relabel, allFieldsStatic, isStatic_relabel value,
        allFieldsStatic_relabelList ns, allFieldsStatic]
    | ident => exact allFieldsStatic_relabelList ns
    | _ => rfl

end

theorem fieldValue?_relabel (body : List Node) (name : Name) :
    fieldValue? (body.map (relabel r)) name = (fieldValue? body name).map (relabel r) := by
  unfold fieldValue?
  induction body with
  | nil => rfl
  | cons n ns ih =>
    rw [List.map_cons, List.findSome?_cons, List.findSome?_cons, ih]
    cases n with
    | assign t target value transparent link =>
      simp only [relabel, ident?_relabel]
      cases target.ident? == some name <;> rfl
    | _ => rfl

end Node

/-! ## Equality -/

/-- The same links, of nodes under other tags. -/
def Links.relabel (r : Relabeling) (links : Links) : Links :=
  ⟨links.entries.map fun entry => (r.id entry.1, entry.2)⟩

section

variable {r : Relabeling}

theorem Links.find?_relabel (hr : Function.Injective r.id) (links : Links) (id : NodeId) :
    (links.relabel r).find? (r.id id) = links.find? id := by
  unfold find? relabel
  induction links.entries with
  | nil => rfl
  | cons entry entries ih =>
    have hid : (r.id id == r.id entry.1) = (id == entry.1) := by
      rw [Bool.eq_iff_iff, beq_iff_eq, beq_iff_eq, hr.eq_iff]
    rw [List.map_cons, List.lookup_cons, List.lookup_cons, hid, ih]

theorem Links.current_relabel (hr : Function.Injective r.id) (links : Links) (id : NodeId)
    (made : Option DefId) :
    (links.relabel r).current (r.id id) made = links.current id made := by
  rw [current, current, find?_relabel hr]

/-- Aliases under other tags have the links that they had. -/
def Links.Follow (r : Relabeling) (links links' : Links) : Prop :=
  ∀ (id : NodeId) (made : Option DefId), links'.current (r.id id) made = links.current id made

namespace Node

variable {links links' : Links}

mutual

/-- Equality by content does not see the tags. -/
theorem equal_relabel (hl : Links.Follow r links links') : ∀ a b : Node,
    equal links' (a.relabel r) (b.relabel r) = equal links a b
  | lit .., b | enum .., b | builtin .., b | ident .., b | unknown _, b => by cases b <;> rfl
  | list _ l, b => by
    cases b with
    | list => exact equalList_relabel hl l _
    | _ => rfl
  | block _ l, b => by
    cases b with
    | block => exact equalList_relabel hl l _
    | _ => rfl
  | record _ _ l _, b => by
    cases b with
    | record => simp only [relabel, equal, equalDecls_relabel hl l]
    | _ => rfl
  | fnType _ _ a c, b => by
    cases b with
    | fnType => simp only [relabel, equal, equal_relabel hl a, equal_relabel hl c]
    | _ => rfl
  | selfType _ a, b => by
    cases b with
    | selfType => exact equal_relabel hl a _
    | _ => rfl
  | arg _ _ a, b => by
    cases b with
    | arg => simp only [relabel, equal, equal_relabel hl a]
    | _ => rfl
  | field _ _ a, b => by
    cases b with
    | field => simp only [relabel, equal, equal_relabel hl a]
    | _ => rfl
  | assign _ a v _ _, b => by
    cases b with
    | assign =>
      simp only [relabel, equal, equal_relabel hl a, equal_relabel hl v, Tag.relabel,
        hl _ _]
    | _ => rfl
  | func _ d l, b => by
    cases b with
    | func => simp only [relabel, equal, equalDecl_relabel hl d, equalList_relabel hl l]
    | _ => rfl
  | call _ a c, b => by
    cases b with
    | call => simp only [relabel, equal, equal_relabel hl a, equal_relabel hl c]
    | _ => rfl
  | binOp _ _ a c, b => by
    cases b with
    | binOp => simp only [relabel, equal, equal_relabel hl a, equal_relabel hl c]
    | _ => rfl
  | matchOn _ a l, b => by
    cases b with
    | matchOn => simp only [relabel, equal, equal_relabel hl a, equalCases_relabel hl l]
    | _ => rfl
  | whileDo _ a l, b => by
    cases b with
    | whileDo => simp only [relabel, equal, equal_relabel hl a, equalList_relabel hl l]
    | _ => rfl
  | inst _ a l, b => by
    cases b with
    | inst => simp only [relabel, equal, equal_relabel hl a, equalList_relabel hl l]
    | _ => rfl
  | ifElse _ a l m, b => by
    cases b with
    | ifElse =>
      simp only [relabel, equal, equal_relabel hl a, equalList_relabel hl l, equalList_relabel hl m]
    | _ => rfl
termination_by structural a => a

theorem equalList_relabel (hl : Links.Follow r links links') : ∀ as bs : List Node,
    equalList links' (relabelList r as) (relabelList r bs) = equalList links as bs
  | [], [] | [], _ :: _ | _ :: _, [] => by simp only [relabelList, equalList]
  | a :: as, b :: bs => by
    simp only [relabelList, equalList, equal_relabel hl a b, equalList_relabel hl as bs]
termination_by structural a => a

theorem equalDecl_relabel (hl : Links.Follow r links links') : ∀ a b : Decl Node,
    equalDecl links' (relabelDecl r a) (relabelDecl r b) = equalDecl links a b
  | ⟨_, _, ty⟩, ⟨_, _, ty'⟩ => by simp only [relabelDecl, equalDecl, equal_relabel hl ty ty']
termination_by structural a => a

theorem equalDecls_relabel (hl : Links.Follow r links links') : ∀ as bs : List (Decl Node),
    equalDecls links' (relabelDecls r as) (relabelDecls r bs) = equalDecls links as bs
  | [], [] | [], _ :: _ | _ :: _, [] => by simp only [relabelDecls, equalDecls]
  | a :: as, b :: bs => by
    simp only [relabelDecls, equalDecls, equalDecl_relabel hl a b, equalDecls_relabel hl as bs]
termination_by structural a => a

theorem equalCase_relabel (hl : Links.Follow r links links') : ∀ a b : Case Node,
    equalCase links' (relabelCase r a) (relabelCase r b) = equalCase links a b
  | ⟨_, pattern, body⟩, ⟨_, pattern', body'⟩ => by
    simp only [relabelCase, equalCase, equal_relabel hl pattern pattern',
      equalList_relabel hl body body']
termination_by structural a => a

theorem equalCases_relabel (hl : Links.Follow r links links') : ∀ as bs : List (Case Node),
    equalCases links' (relabelCases r as) (relabelCases r bs) = equalCases links as bs
  | [], [] | [], _ :: _ | _ :: _, [] => by simp only [relabelCases, equalCases]
  | a :: as, b :: bs => by
    simp only [relabelCases, equalCases, equalCase_relabel hl a b, equalCases_relabel hl as bs]
termination_by structural a => a

end

end Node

end

/-! ## The same tags -/

/-- Every identity and every location stays. -/
def Relabeling.same : Relabeling := ⟨fun id => id, fun span => span⟩

namespace Node

mutual

@[simp] theorem relabel_same : ∀ n : Node, n.relabel .same = n
  | lit .. | enum .. | builtin .. | ident .. | unknown _ => rfl
  | list _ l | block _ l => by rw [relabel, relabelList_same l]; rfl
  | record _ _ l _ => by rw [relabel, relabelDecls_same l]; rfl
  | fnType _ _ a b => by rw [relabel, relabel_same a, relabel_same b]; rfl
  | selfType _ a | arg _ _ a | field _ _ a => by rw [relabel, relabel_same a]; rfl
  | assign _ a v _ _ => by rw [relabel, relabel_same a, relabel_same v]; rfl
  | func _ d l => by rw [relabel, relabelDecl_same d, relabelList_same l]; rfl
  | call _ a b | binOp _ _ a b => by rw [relabel, relabel_same a, relabel_same b]; rfl
  | matchOn _ a l => by rw [relabel, relabel_same a, relabelCases_same l]; rfl
  | whileDo _ a l | inst _ a l => by rw [relabel, relabel_same a, relabelList_same l]; rfl
  | ifElse _ a l m => by
    rw [relabel, relabel_same a, relabelList_same l, relabelList_same m]
    rfl

theorem relabelList_same (ns : List Node) : relabelList .same ns = ns := by
  cases ns with
  | nil => rfl
  | cons n ns => rw [relabelList, relabel_same n, relabelList_same ns]

theorem relabelDecl_same : ∀ d : Decl Node, relabelDecl .same d = d
  | ⟨_, _, ty⟩ => by rw [relabelDecl, relabel_same ty]; rfl

theorem relabelDecls_same (ds : List (Decl Node)) : relabelDecls .same ds = ds := by
  cases ds with
  | nil => rfl
  | cons d ds => rw [relabelDecls, relabelDecl_same d, relabelDecls_same ds]

theorem relabelCase_same : ∀ c : Case Node, relabelCase .same c = c
  | ⟨_, pattern, body⟩ => by rw [relabelCase, relabel_same pattern, relabelList_same body]; rfl

theorem relabelCases_same (cs : List (Case Node)) : relabelCases .same cs = cs := by
  cases cs with
  | nil => rfl
  | cons c cs => rw [relabelCases, relabelCase_same c, relabelCases_same cs]

end

end Node

/-! ## Bare nodes -/

/-- No identity and no location is left. -/
def Relabeling.bare : Relabeling := ⟨fun _ => 0, fun _ => .builtin⟩

/-- The node without its identities and locations. -/
abbrev Node.bare (n : Node) : Node := n.relabel .bare

end Residual
