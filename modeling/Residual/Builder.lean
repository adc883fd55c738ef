/-
Construction of nodes. Every node gets a location of its own and an identity of its own, drawn from
two counters; type identities are named by the counter of locations. What one builder makes is
therefore told apart by location, by identity, and, for types, by type identity.
-/
import Residual.Counter
import Residual.Node.Links

namespace Residual

/-- The state of construction. -/
structure Builder where
  /-- Numbers for locations and type identities. -/
  places : Counter
  /-- Numbers for node identities. -/
  nodes : Counter
  deriving Repr, Inhabited

def Builder.start : Builder := ⟨.start, .start⟩

/-- Construction steps. -/
abbrev Build := StateM Builder

namespace Build

/-! ## Drawing from the counters -/

/-- A location that no other node has. The first one is `1-2`, so none is that of the built-ins. -/
def span : Build Span := modifyGet fun b =>
  let (n, places) := b.places.alloc
  (.bare (n + 1) (n + 2), { b with places })

/-- An identity that no other type has. -/
def typeId (stem : String) : Build TypeId := modifyGet fun b =>
  let (name, places) := b.places.name stem
  (name, { b with places })

/-- A tag with a new identity at a given location. -/
def tagAt (span : Span) : Build Tag := modifyGet fun b =>
  let (id, nodes) := b.nodes.alloc
  (⟨id, span⟩, { b with nodes })

/-- A tag with a new identity at a new location. -/
def tag : Build Tag := do tagAt (← span)

def lit (value : Literal) : Build Node := return .lit (← tag) value

def number (x : Float) : Build Node := lit (.number x)

def bool (b : Bool) : Build Node := lit (.bool b)

def string (s : String) : Build Node := lit (.string s)

def list (items : List Node) : Build Node := return .list (← tag) items

def builtin (b : Builtin) : Build Node := return .builtin (← tag) b

def field (name : Name) (ty : Node) : Build Node := return .field (← tag) name ty

/-- A record type. Its fields get their locations first, then it gets its identity. -/
def record (fields : List (Name × Node)) (range : Option Range) : Build Node := do
  let decls ← fields.mapM fun (name, ty) => return { span := ← span, name, ty }
  let id ← typeId "struct"
  return .record (← tag) id decls range

def enum (members : List Name) : Build Node := do
  let id ← typeId "enum"
  return .enum (← tag) id members

def fnType (dom cod : Node) : Build Node := do
  let id ← typeId "fn"
  return .fnType (← tag) id dom cod

def selfType (ty : Node) : Build Node := return .selfType (← tag) ty

/-! ## Names and bindings -/

def ident (name : Name) : Build Node := return .ident (← tag) name

def arg (name : Name) (ty : Node) : Build Node := return .arg (← tag) name ty

/-- Binds a value to any target; only identifiers pass the checker. -/
def assignTo (target value : Node) (transparent : Bool) : Build Node :=
  return .assign (← tag) target value transparent none

def assign (name : Name) (value : Node) : Build Node := do assignTo (← ident name) value false

def func (name : Name) (ty : Node) (body : List Node) : Build Node := do
  let param := { span := ← span, name, ty }
  return .func (← tag) param body

def call (callee arg : Node) : Build Node := return .call (← tag) callee arg

def binOp (op : Operator) (lhs rhs : Node) : Build Node := return .binOp (← tag) op lhs rhs

def dot (lhs : Node) (name : Name) : Build Node := do binOp .dot lhs (← ident name)

def ifElse (condition : Node) (thenBody elseBody : List Node) : Build Node :=
  return .ifElse (← tag) condition thenBody elseBody

def block (items : List Node) : Build Node := return .block (← tag) items

def inst (template : Node) (body : List Node) : Build Node := return .inst (← tag) template body

/-- A match. Its cases get their locations first. -/
def matchOn (scrutinee : Node) (cases : List (Node × List Node)) : Build Node := do
  let cases ← cases.mapM fun (pattern, body) => return { span := ← span, pattern, body }
  return .matchOn (← tag) scrutinee cases

def whileDo (condition : Node) (body : List Node) : Build Node :=
  return .whileDo (← tag) condition body

def unknown : Build Node := return .unknown (← tag)

end Build

end Residual
