/-
Nodes of the expression language. A node is a tree; besides its content each node carries a tag
with its own identity and its location. Whether two nodes are the very same one is a question of
identity, which is how recursion is noticed; locations only serve diagnostics.

Every constructor starts with the tag. Children are nodes; declarations and cases, which have a
location but no identity, are small structures over nodes.
-/
import Residual.Source.Span
import Residual.Literal

namespace Residual

/-- A name of the language. -/
abbrev Name := String

/-- The identity of a structural type; types with the same identity are the same. -/
abbrev TypeId := String

/-- The place of a definition in the order of definitions. -/
abbrev DefId := Nat

/-- The identity of a node. -/
abbrev NodeId := Nat

/-- What a node has besides its content. -/
structure Tag where
  id : NodeId
  span : Span
  deriving Repr, Inhabited

/-- A name declared with a type: a field of a record, or the parameter of a function. -/
structure Decl (α : Type) where
  span : Span
  name : Name
  ty : α
  deriving Repr, Inhabited

/-- A case of a match; the pattern `_` matches everything. -/
structure Case (α : Type) where
  span : Span
  pattern : α
  body : List α
  deriving Repr, Inhabited

/-- Bounds of a record's numbers, both included. -/
structure Range where
  lo : Float
  hi : Float
  deriving Repr, BEq, Inhabited

/-- A node. A body is a list of nodes; its value is that of its last node. -/
inductive Node where
  | lit (tag : Tag) (value : Literal)
  /-- `[a, b]` -/
  | list (tag : Tag) (items : List Node)
  /-- `struct { x: T }` -/
  | record (tag : Tag) (id : TypeId) (fields : List (Decl Node)) (range : Option Range)
  /-- `enum { A, B }` -/
  | enum (tag : Tag) (id : TypeId) (members : List Name)
  /-- `A -> B` -/
  | fnType (tag : Tag) (id : TypeId) (arg ret : Node)
  /-- `self(T)`, some value of exactly the type `T` -/
  | selfType (tag : Tag) (ty : Node)
  | builtin (tag : Tag) (builtin : Builtin)
  /-- `x(T)` -/
  | arg (tag : Tag) (name : Name) (ty : Node)
  /-- `x = v`, an alias. Uses of the name stand for the value when names are resolved, and always if
  the alias is transparent. The link tells which definition the alias has made, if it was made with
  one. -/
  | assign (tag : Tag) (target value : Node) (transparent : Bool) (link : Option DefId)
  | ident (tag : Tag) (name : Name)
  /-- `@x(T) body` -/
  | func (tag : Tag) (param : Decl Node) (body : List Node)
  /-- `f(a)` -/
  | call (tag : Tag) (callee arg : Node)
  | binOp (tag : Tag) (op : Operator) (lhs rhs : Node)
  /-- `x: T` -/
  | field (tag : Tag) (name : Name) (ty : Node)
  | matchOn (tag : Tag) (scrutinee : Node) (cases : List (Case Node))
  | whileDo (tag : Tag) (condition : Node) (body : List Node)
  | ifElse (tag : Tag) (condition : Node) (thenBody elseBody : List Node)
  | block (tag : Tag) (items : List Node)
  /-- `T { x = 1 }`, a value of a record or enum type -/
  | inst (tag : Tag) (template : Node) (body : List Node)
  /-- `?`, a value of which nothing is known -/
  | unknown (tag : Tag)

namespace Node

/-! ## Tags -/

def tag : Node → Tag
  | lit t .. | list t .. | record t .. | enum t .. | fnType t .. | selfType t .. | builtin t ..
  | arg t .. | assign t .. | ident t .. | func t .. | call t .. | binOp t .. | field t ..
  | matchOn t .. | whileDo t .. | ifElse t .. | block t .. | inst t .. | unknown t => t

/-- The same content under another tag. -/
def withTag (t : Tag) : Node → Node
  | lit _ value => lit t value
  | list _ items => list t items
  | record _ id fields range => record t id fields range
  | enum _ id members => enum t id members
  | fnType _ id dom cod => fnType t id dom cod
  | selfType _ ty => selfType t ty
  | builtin _ b => builtin t b
  | arg _ name ty => arg t name ty
  | assign _ target value transparent link => assign t target value transparent link
  | ident _ name => ident t name
  | func _ param body => func t param body
  | call _ f a => call t f a
  | binOp _ op lhs rhs => binOp t op lhs rhs
  | field _ name ty => field t name ty
  | matchOn _ scrutinee cases => matchOn t scrutinee cases
  | whileDo _ condition body => whileDo t condition body
  | ifElse _ condition thenBody elseBody => ifElse t condition thenBody elseBody
  | block _ items => block t items
  | inst _ template body => inst t template body
  | unknown _ => unknown t

def id (n : Node) : NodeId := n.tag.id

def span (n : Node) : Span := n.tag.span

/-- Whether two nodes are the very same one. -/
def isSame (a b : Node) : Bool := a.id == b.id

instance : Inhabited Node := ⟨unknown default⟩

@[simp] theorem tag_withTag (t : Tag) (n : Node) : (n.withTag t).tag = t := by cases n <;> rfl

@[simp] theorem withTag_tag (n : Node) : n.withTag n.tag = n := by cases n <;> rfl

/-! ## Views -/

def ident? : Node → Option Name
  | ident _ name => some name
  | _ => none

def bool? : Node → Option Bool
  | lit _ (.bool b) => some b
  | _ => none

def number? : Node → Option Float
  | lit _ (.number x) => some x
  | _ => none

def isBuiltin (b : Builtin) : Node → Bool
  | builtin _ c => b == c
  | _ => false

def isLiteral : Node → Bool
  | lit .. => true
  | _ => false

def isFunc : Node → Bool
  | func .. => true
  | _ => false

def isAlias : Node → Bool
  | assign .. => true
  | _ => false

/-- The pattern `_`. -/
def isWildcard (n : Node) : Bool := n.ident? == some "_"

/-- The name that an alias binds, if its target is an identifier. -/
def boundName? : Node → Option Name
  | assign _ target .. => target.ident?
  | _ => none

/-- Nodes that are types. -/
def isType : Node → Bool
  | builtin .. | record .. | enum .. | fnType .. | selfType .. => true
  | _ => false

/-- Nodes that only tell the type of a value. -/
def isPlaceholder : Node → Bool
  | selfType .. | unknown .. => true
  | _ => false

/-- The identity that types are compared by. -/
def typeId? : Node → Option TypeId
  | builtin _ b => some b.name
  | record _ id .. | enum _ id .. | fnType _ id .. => some id
  | selfType _ ty => ty.typeId?
  | _ => none

/-- The field of an instance body that is bound to `name`. -/
def fieldValue? (body : List Node) (name : Name) : Option Node :=
  body.findSome? fun
    | assign _ target value _ _ => if target.ident? == some name then some value else none
    | _ => none

/-- The value of a field is that of an alias of the body that binds the name. -/
theorem exists_of_fieldValue? {body : List Node} {name : Name} {value : Node}
    (h : fieldValue? body name = some value) :
    ∃ tag target transparent link, assign tag target value transparent link ∈ body ∧
      target.ident? = some name := by
  obtain ⟨item, hitem, heq⟩ := List.exists_of_findSome?_eq_some h
  split at heq
  · split at heq
    · rename_i hname
      cases heq
      exact ⟨_, _, _, _, hitem, beq_iff_eq.1 hname⟩
    · cases heq
  · cases heq

theorem isSome_fieldValue? {body : List Node} {name : Name} {tag : Tag} {target value : Node}
    {transparent : Bool} {link : Option DefId}
    (h : assign tag target value transparent link ∈ body) (hname : target.ident? = some name) :
    (fieldValue? body name).isSome = true := by
  rw [fieldValue?, List.findSome?_isSome_iff]
  exact ⟨_, h, by simp [hname]⟩

/-- The declaration of `name` among the fields of a record. -/
def fieldDecl? (fields : List (Decl Node)) (name : Name) : Option (Decl Node) :=
  fields.find? (·.name == name)

mutual

/-- Nodes that are fully known: nothing in them hangs on a name that is not resolved. -/
def isStatic : Node → Bool
  | lit .. | builtin .. | record .. | enum .. | fnType .. | func .. => true
  | list _ items => allStatic items
  | inst _ template body => template.isType && allFieldsStatic body
  | _ => false

def allStatic : List Node → Bool
  | [] => true
  | n :: ns => n.isStatic && allStatic ns

/-- The body of a known instance has known fields, and members, which name themselves. -/
def allFieldsStatic : List Node → Bool
  | [] => true
  | assign _ _ value _ _ :: ns => value.isStatic && allFieldsStatic ns
  | ident .. :: ns => allFieldsStatic ns
  | _ :: _ => false

end

end Node

end Residual
