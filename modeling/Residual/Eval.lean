/-
Partial evaluation. A node is reduced as far as the environment allows; what cannot be reduced is
left as a residual node of the same shape over reduced parts. Where names are resolved, a use of a
name becomes its value and a call becomes its result; elsewhere names are kept, and only the values
of transparent bindings are put in.

Each function here takes the evaluator of the parts as an argument; `eval` ties the knot with a
bound on the nesting, since a recursive program may have no end.
-/
import Residual.Node.Equality
import Residual.Pass

namespace Residual

open Pass (tagAt under fail push)

namespace Eval

/-! ## Sequences -/

/-- Binds an evaluated alias of a sequence for the nodes after it. Where its name is taken it is
bound under another one, and the residual alias bears that name. -/
def bindLocal (item : Node) : Pass Node := do
  match item with
  | .assign tag (.ident nameTag name) value transparent _ =>
    let env ← Pass.env
    let rename := env.freshName name
    push { name, value, transparent := transparent || env.transparent, rename }
    match rename with
    | some other =>
      let target := Node.ident (← tagAt nameTag.span) other
      return .assign (← tagAt tag.span) target value transparent (env.links.of? item)
    | none => return item
  | _ => return item

/-- The value of an evaluated sequence: its last node. Where names are kept, a sequence with
bindings stays a block. -/
def seqValue (items : List Node) (site : Span) : Pass Node := do
  if (← Pass.env).resolve || !items.any (·.isAlias) then
    match items.getLast? with
    | some last => return last
    | none => fail (.emptySequence site)
  else return .block (← tagAt site) items

section

variable (eval : Node → Pass Node)

/-- Evaluates in order; each binding is seen by the nodes after it. -/
def evalSeq (items : List Node) : Pass (List Node) :=
  under .scope (items.mapM fun item => do bindLocal (← eval item))

/-- Types are always reduced to what they denote. -/
def evalType (ty : Node) : Pass Node := under (.resolve true) (eval ty)

def evalDecl (d : Decl Node) : Pass (Decl Node) := return { d with ty := ← evalType eval d.ty }

/-! ## Names and functions -/

/-- A name becomes its value where it is resolved, unless only the type of the value is known. A
name that stays bears the name of its binder. -/
def evalIdent (tag : Tag) (name : Name) : Pass Node := do
  let env ← Pass.env
  match env.lookup name with
  | none => fail (.unknownName name tag.span)
  | some found =>
    if !found.isPlaceholder && (env.resolve || found.isTransparent) then Pass.valueOf found
    else
      match found.rename? with
      | some other => return .ident (← tagAt tag.span) other
      | none => return .ident tag name

/-- A function is evaluated under its binder, of which only the type is known. -/
def evalFunc (tag : Tag) (param : Decl Node) (body : List Node) : Pass Node := do
  let ty ← evalType eval param.ty
  let placeholderTag ← tagAt param.span
  let value := if ty.isType then Node.selfType placeholderTag ty else .unknown placeholderTag
  let rename := (← Pass.env).freshName param.name
  let binding := { name := param.name, value, transparent := false, rename }
  let body ← under (.call (.func tag param body)) (under (.binding binding) (evalSeq eval body))
  return .func (← tagAt tag.span) { param with name := rename.getD param.name, ty } body

/-- The body of a function with the parameter bound to an argument. -/
def apply (callee : Node) (param : Decl Node) (body : List Node) (arg : Node) (site : Span) :
    Pass Node :=
  let binding := { name := param.name, value := arg, transparent := true, rename := none }
  under (.call callee) <| under (.transparent true) <| under (.binding binding) do
    seqValue (← evalSeq eval body) site

/-- A top-level function keeps its name in a residual call. -/
def residualCallee (callee evaluated : Node) : Pass Node := do
  match callee with
  | .ident _ name =>
    match evaluated.isFunc, (← Pass.env).lookup name with
    | true, some (.defined ..) | true, some (.builtin _) => return callee
    | _, _ => return evaluated
  | _ => return evaluated

/-- The result of a call that is unfolded. A call is unfolded if its callee is known to be a function
that is not being looked into already, or if names are resolved and the argument is known. -/
def unfoldCall (env : Env) (function value : Node) (site : Span) : Pass (Option Node) :=
  match function with
  | .func _ param body =>
    if !env.isOnStack function || (env.resolve && value.isStatic) then
      some <$> apply eval function param body value site
    else return none
  | _ => return none

/-- The callee of a call that stays. Where names are kept, a named callee keeps its name. -/
def keptCallee (env : Env) (callee function : Node) : Pass Node :=
  match env.resolve, callee with
  | false, .ident tag name => evalIdent tag name
  | _, _ => residualCallee callee function

/-- Where names are resolved, a call that is unfolded becomes its result. Where names are kept,
unfolding only shows whether the call has a fault, and the call stays. -/
def evalCall (tag : Tag) (callee arg : Node) : Pass Node := do
  let function ← evalType eval callee
  let value ← eval arg
  let env ← Pass.env
  match env.resolve, ← unfoldCall eval env function value tag.span with
  | true, some result => return result
  | _, _ =>
    let callee ← keptCallee env callee function
    return .call (← tagAt tag.span) callee value

/-! ## Operators -/

/-- Takes a field out of an instance. On anything else the access stays. -/
def evalDot (tag : Tag) (lhs rhs : Node) : Pass Node := do
  let owner ← eval lhs
  match owner, rhs with
  | .inst _ template body, .ident _ name =>
    match Node.fieldValue? body name with
    | some value => return value
    | none => fail (.noSuchField rhs template tag.span)
  | _, _ => return .binOp (← tagAt tag.span) .dot owner rhs

/-- Two numbers are folded into a literal. -/
def evalBinOp (tag : Tag) (op : Operator) (lhs rhs : Node) : Pass Node := do
  if op = .dot then evalDot eval tag lhs rhs
  else
    let a ← eval lhs
    let b ← eval rhs
    let folded := do op.fold (← a.number?) (← b.number?)
    match folded with
    | some value => return .lit (← tagAt tag.span) value
    | none => return .binOp (← tagAt tag.span) op a b

/-! ## Control -/

def evalIf (tag : Tag) (condition : Node) (thenBody elseBody : List Node) : Pass Node := do
  let condition ← eval condition
  match condition.bool? with
  | some taken => seqValue (← evalSeq eval (if taken then thenBody else elseBody)) tag.span
  | none =>
    let thenBody ← evalSeq eval thenBody
    let elseBody ← evalSeq eval elseBody
    return .ifElse (← tagAt tag.span) condition thenBody elseBody

/-- Whether a pattern, once evaluated, is equal to a known value. -/
def isMatch (pattern scrutinee : Node) : Pass Bool := do
  if pattern.isWildcard then return true
  else return Node.equal (← Pass.env).links (← eval pattern) scrutinee

/-- The first case that matches a known value. -/
def evalCases (scrutinee : Node) (site : Span) : List (Case Node) → Pass Node
  | [] => fail (.noMatchingCase scrutinee site)
  | c :: cs => do
    if ← isMatch eval c.pattern scrutinee then seqValue (← evalSeq eval c.body) c.span
    else evalCases scrutinee site cs

/-- A case of a match that stays. -/
def evalCase (c : Case Node) : Pass (Case Node) := do
  let pattern ← if c.pattern.isWildcard then pure c.pattern else eval c.pattern
  return { c with pattern, body := ← evalSeq eval c.body }

/-- A match is decided when the value it looks at is fully known. -/
def evalMatch (tag : Tag) (scrutinee : Node) (cases : List (Case Node)) : Pass Node := do
  let scrutinee ← eval scrutinee
  if scrutinee.isStatic then evalCases eval scrutinee tag.span cases
  else
    let cases ← cases.mapM (evalCase eval)
    return .matchOn (← tagAt tag.span) scrutinee cases

/-- An item of an instance body; members of an enum name themselves. -/
def evalField : Node → Pass Node
  | .ident tag name => return .ident tag name
  | n => eval n

/-! ## Nodes -/

/-- One step of evaluation, with `eval` for the parts. -/
def step : Node → Pass Node
  | .lit tag value => return .lit tag value
  | .builtin tag b => return .builtin tag b
  | .enum tag id members => return .enum tag id members
  | .unknown tag => return .unknown tag
  | .list tag items => do
    let items ← items.mapM eval
    return .list (← tagAt tag.span) items
  | .record tag id fields range => do
    let fields ← fields.mapM (evalDecl eval)
    return .record (← tagAt tag.span) id fields range
  | .fnType tag id dom cod => do
    let dom ← evalType eval dom
    let cod ← evalType eval cod
    return .fnType (← tagAt tag.span) id dom cod
  | .selfType tag ty => do
    let ty ← evalType eval ty
    return .selfType (← tagAt tag.span) ty
  | .arg tag name ty => do
    let ty ← evalType eval ty
    return .arg (← tagAt tag.span) name ty
  | .field tag name ty => do
    let ty ← evalType eval ty
    return .field (← tagAt tag.span) name ty
  | .assign tag target value transparent link => do
    let value ← eval value
    let link := (← Pass.env).links.current tag.id link
    return .assign (← tagAt tag.span) target value transparent link
  | .ident tag name => evalIdent tag name
  | .func tag param body => evalFunc eval tag param body
  | .call tag callee arg => evalCall eval tag callee arg
  | .binOp tag op lhs rhs => evalBinOp eval tag op lhs rhs
  | .matchOn tag scrutinee cases => evalMatch eval tag scrutinee cases
  | .whileDo tag condition body => do
    -- nothing changes in a loop, so it is never unrolled
    let condition ← eval condition
    let body ← evalSeq eval body
    return .whileDo (← tagAt tag.span) condition body
  | .ifElse tag condition thenBody elseBody => evalIf eval tag condition thenBody elseBody
  | .block tag items => do seqValue (← evalSeq eval items) tag.span
  | .inst tag template body => do
    let template ← evalType eval template
    let body ← body.mapM (evalField eval)
    return .inst (← tagAt tag.span) template body

end

end Eval

/-- Evaluates a node; `depth` bounds the nesting. -/
def eval : (depth : Nat) → Node → Pass Node
  | 0, _ => throw .exhausted
  | depth + 1, n => Eval.step (eval depth) n

/-- Evaluates a sequence. -/
def evalSeq (depth : Nat) (items : List Node) : Pass (List Node) := Eval.evalSeq (eval depth) items

end Residual
