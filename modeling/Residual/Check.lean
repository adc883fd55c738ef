/-
Type checking. The type of a node is a node. Checking evaluates where types hang on values: a callee
is reduced to a function before its argument is checked, and a call has the type of what it reduces
to.

A recursive definition meets itself while it is being checked. Its type is then void: it hangs on
itself, and other branches of the program have to tell it.

Each function here takes the evaluator and the checker of the parts as arguments; `check` ties the
knot with a bound on the nesting.
-/
import Residual.Node.Compatible
import Residual.Eval

namespace Residual

open Pass (tagAt under fail push attempt)

namespace Check

/-- The identity of the type inferred for the function at a location. -/
def functionTypeId (span : Span) : TypeId := "fn@" ++ span.text

/-- A placeholder for a value of a type. -/
def placeholder (span : Span) (ty : Node) : Pass Node := return .selfType (← tagAt span) ty

def expect (expected found : Node) (site : Span) : Pass PUnit :=
  if compatible expected found then pure ⟨⟩ else fail (.typeMismatch expected found site)

/-- Whether a type fits a built-in one. -/
def fits (b : Builtin) (found : Node) : Bool := compatible (.builtin ⟨0, .builtin⟩ b) found

/-! ## Branches -/

/-- The types that the arms of a branch have. Void arms have none; the first error ends it. -/
def knownTypes : List (Except Fault Node × Span) → Except Fault (List (Node × Span))
  | [] => return []
  | (.ok ty, site) :: arms => return (ty, site) :: (← knownTypes arms)
  | (.error .void, _) :: arms => knownTypes arms
  | (.error f, _) :: _ => throw f

/-- The common type of the arms of a branch: that of the first arm that has one. -/
def join (site : Span) (arms : List (Except Fault Node × Span)) : Pass Node := do
  match ← knownTypes arms with
  | [] => fail (.cannotInfer site)
  | (first, firstSite) :: others =>
    match others.find? fun (ty, _) => !compatible first ty with
    | some (ty, tySite) => fail (.branchMismatch first ty firstSite tySite)
    | none => return first

/-- Where the value of a body is located. -/
def bodySite (body : List Node) (otherwise : Span) : Span :=
  (body.getLast?.map (·.span)).getD otherwise

section

variable (eval check : Node → Pass Node)

/-! ## Sequences -/

/-- Checks a node of a sequence. A binding is seen by the nodes after it as a value of its type. -/
def checkItem (item : Node) : Pass Node := do
  let ty ← check item
  match item.boundName? with
  | some name =>
    let value ← placeholder item.span ty
    push { name, value, transparent := false, rename := none }
    return ty
  | none => return ty

/-- The nodes of a sequence before its last one. -/
def checkItems : List Node → Pass PUnit
  | [] => return ⟨⟩
  | item :: items => do
    let _ ← checkItem check item
    checkItems items

/-- A sequence has the type of its last node. -/
def checkSeq (items : List Node) (site : Span) : Pass Node :=
  match items.getLast? with
  | none => fail (.emptySequence site)
  | some last => under .scope do
    checkItems check items.dropLast
    checkItem check last

/-! ## Type expressions -/

/-- What a checked type expression denotes. -/
def denoted (ty : Node) : Pass Node := do
  let _ ← check ty
  under (.resolve true) (eval ty)

/-- A type expression, reduced to the type that it denotes. -/
def typeExpr (ty : Node) : Pass Node := do
  let value ← denoted eval check ty
  if value.isType then return value else fail (.notAType value ty.span)

/-- Like `typeExpr`, but what is no type declares `Any`. -/
def declaredType (ty : Node) : Pass Node := do
  let value ← denoted eval check ty
  if value.isType then return value else Pass.builtin .any

/-- The type of a field. A field may refer back to the record that is being checked. -/
def checkFieldType (d : Decl Node) : Pass PUnit := do
  match ← attempt (typeExpr eval check d.ty) with
  | .ok _ | .error .void => return ⟨⟩
  | .error f => throw f

/-! ## Lists and names -/

def checkItemsAgainst (expected : Node) : List Node → Pass PUnit
  | [] => return ⟨⟩
  | item :: items => do
    expect expected (← check item) item.span
    checkItemsAgainst expected items

/-- The items of a list have the type of the first one. -/
def checkList : List Node → Pass Node
  | [] => Pass.builtin .list
  | first :: others => do
    let expected ← check first
    checkItemsAgainst check expected others
    Pass.builtin .list

/-- An alias has the type of its value. Its name must be free, or that of the definition that the
alias itself has made. -/
def checkAlias (tag : Tag) (target value : Node) (link : Option DefId) : Pass Node := do
  match target.ident? with
  | none => fail (.invalidTarget target target.span)
  | some name =>
    let env ← Pass.env
    match env.lookup name with
    | none => check value
    | some found =>
      if found.isLinked (env.links.current tag.id link) then check value
      else fail (.alreadyDefined name tag.span found.span)

/-- A definition, unless it is being checked already. -/
def checkDefined (value : Node) : Pass Node := do
  if (← Pass.env).isOnStack value then throw .void
  else under (.call value) (check value)

/-- A name has the type of its value, which is checked where only definitions are seen. -/
def checkIdent (tag : Tag) (name : Name) : Pass Node := do
  match (← Pass.env).lookup name with
  | none => fail (.unknownName name tag.span)
  | some found =>
    let value ← Pass.valueOf found
    under .globals <|
      match found with
      | .defined .. => if value.isFunc then check value else checkDefined check value
      | _ => check value

/-! ## Functions -/

/-- The body of a function is checked with the parameter standing for its type, and without
resolving names. A function that is being checked already is void. -/
def checkFunc (tag : Tag) (param : Decl Node) (body : List Node) : Pass Node := do
  let function := Node.func tag param body
  if (← Pass.env).isOnStack function then throw .void
  else
    let ty ← declaredType eval check param.ty
    let value ← placeholder param.span ty
    let binding := { name := param.name, value, transparent := false, rename := none }
    let result ← under (.call function) <| under (.binding binding) <|
      under (.resolve false) (checkSeq check body tag.span)
    return .fnType (← tagAt tag.span) (functionTypeId tag.span) ty result

def checkArg (expected found : Node) (call arg definition : Span) : Pass PUnit :=
  if compatible expected found then pure ⟨⟩
  else fail (.argumentMismatch expected found call arg definition)

/-- The argument and result types that a callee declares, if its type tells them. -/
def signature (calleeType : Node) (site : Span) : Pass (Option (Node × Node)) :=
  match calleeType with
  | .fnType _ _ dom cod => return some (dom, cod)
  | .builtin _ .function | .builtin _ .any => return none
  | _ => fail (.notCallable calleeType site)

/-- A call of a callee that is not known yet has the declared type. A call of a known function has
the type of what it reduces to, with the parameter standing for its type. -/
def checkCall (tag : Tag) (callee arg : Node) : Pass Node := do
  let calleeType ← check callee
  let declared ← signature calleeType tag.span
  let argType ← check arg
  let function ← under (.resolve true) (eval callee)
  match function, declared with
  | .func _ param _, some (dom, _) =>
    checkArg dom argType tag.span arg.span function.span
    let result ← under (.resolve true) (eval (.call tag callee arg))
    let value ← placeholder param.span dom
    let binding := { name := param.name, value, transparent := true, rename := none }
    under (.call function) (under (.binding binding) (check result))
  | .func .., none => throw (.contradiction function calleeType)
  | _, some (dom, cod) =>
    checkArg dom argType tag.span arg.span callee.span
    return cod
  | _, none => Pass.builtin .any

/-! ## Operators -/

def checkOperand (op : Operator) (operand : Node) : Pass PUnit := do
  let ty ← check operand
  if fits .number ty then return ⟨⟩ else fail (.operandNotNumber op ty operand.span)

/-- A field has the type of its value if the instance is known, and the declared one otherwise. -/
def checkDot (tag : Tag) (lhs rhs : Node) : Pass Node := do
  match rhs.ident? with
  | none => fail (.noSuchField rhs lhs tag.span)
  | some name =>
    match ← eval lhs with
    | .inst _ template body =>
      match Node.fieldValue? body name with
      | some value => check value
      | none => fail (.noSuchField rhs template tag.span)
    | _ =>
      let owner ← check lhs
      match owner with
      | .record _ _ fields _ =>
        match Node.fieldDecl? fields name with
        | some decl => typeExpr eval check decl.ty
        | none => fail (.noSuchField rhs owner tag.span)
      | _ => fail (.noSuchField rhs owner tag.span)

def checkBinOp (tag : Tag) (op : Operator) (lhs rhs : Node) : Pass Node := do
  if op = .dot then checkDot eval check tag lhs rhs
  else
    checkOperand check op lhs
    checkOperand check op rhs
    Pass.builtin (if op.isArithmetic then .number else .bool)

/-! ## Control -/

def expectBool (condition : Node) : Pass PUnit := do
  let ty ← check condition
  if fits .bool ty then return ⟨⟩ else fail (.conditionNotBool ty condition.span)

def checkIf (tag : Tag) (condition : Node) (thenBody elseBody : List Node) : Pass Node := do
  expectBool check condition
  let thenType ← attempt (checkSeq check thenBody tag.span)
  let elseType ← attempt (checkSeq check elseBody tag.span)
  join tag.span [(thenType, bodySite thenBody tag.span), (elseType, bodySite elseBody tag.span)]

/-- A case of a match: its pattern must fit, and its body is an arm. -/
def checkCase (scrutineeType : Node) (c : Case Node) : Pass (Except Fault Node × Span) := do
  if !c.pattern.isWildcard then
    expect scrutineeType (← check c.pattern) c.pattern.span
  let ty ← attempt (checkSeq check c.body c.span)
  return (ty, bodySite c.body c.span)

def checkMatch (tag : Tag) (scrutinee : Node) (cases : List (Case Node)) : Pass Node := do
  let scrutineeType ← check scrutinee
  join tag.span (← cases.mapM (checkCase check scrutineeType))

/-! ## Instances -/

/-- A number must lie in the range of its record; what is no known number passes. -/
def checkRange (range : Option Range) (value : Node) : Pass PUnit := do
  match range with
  | none => return ⟨⟩
  | some r =>
    match (← under (.resolve true) (eval value)).number? with
    | some x =>
      if x < r.lo || r.hi < x then fail (.outOfRange x r value.span) else return ⟨⟩
    | none => return ⟨⟩

/-- An item of the body of a record instance binds a declared field to a value of its type. -/
def checkField (template : Node) (fields : List (Decl Node)) (range : Option Range) (item : Node) :
    Pass PUnit := do
  match item with
  | .assign _ target value _ _ =>
    match target.ident? with
    | none => fail (.invalidTarget target target.span)
    | some name =>
      match Node.fieldDecl? fields name with
      | none => fail (.noSuchField target template item.span)
      | some decl =>
        let expected ← typeExpr eval check decl.ty
        expect expected (← check value) value.span
        checkRange eval range value
  | _ => fail (.invalidTarget item item.span)

def checkFields (template : Node) (fields : List (Decl Node)) (range : Option Range) :
    List Node → Pass PUnit
  | [] => return ⟨⟩
  | item :: items => do
    checkField eval check template fields range item
    checkFields template fields range items

/-- An instance gives every field of its record, or the one member of its enum. -/
def checkInst (tag : Tag) (template : Node) (body : List Node) : Pass Node := do
  let ty ← typeExpr eval check template
  match ty with
  | .record _ _ fields range =>
    checkFields eval check ty fields range body
    match fields.find? fun d => (Node.fieldValue? body d.name).isNone with
    | some d => fail (.missingField d.name ty tag.span)
    | none => return ty
  | .enum _ _ members =>
    match body with
    | [member] =>
      if member.ident?.any (members.contains ·) then return ty
      else fail (.notAMember member ty member.span)
    | _ => fail (.notInstantiable ty tag.span)
  | _ => fail (.notInstantiable ty template.span)

/-! ## Nodes -/

/-- One step of checking, with `eval` and `check` for the parts. -/
def step : Node → Pass Node
  | .lit _ value => Pass.builtin value.builtin
  | .list _ items => checkList check items
  | .record _ _ fields _ => do
    fields.forM (checkFieldType eval check)
    Pass.builtin .type
  | .fnType _ _ dom cod => do
    let _ ← typeExpr eval check dom
    let _ ← typeExpr eval check cod
    Pass.builtin .type
  | .enum .. | .builtin .. => Pass.builtin .type
  | .selfType _ ty => return ty
  | .arg _ _ ty | .field _ _ ty => typeExpr eval check ty
  | .assign tag target value _ link => checkAlias check tag target value link
  | .ident tag name => checkIdent check tag name
  | .func tag param body => checkFunc eval check tag param body
  | .call tag callee arg => checkCall eval check tag callee arg
  | .binOp tag op lhs rhs => checkBinOp eval check tag op lhs rhs
  | .matchOn tag scrutinee cases => checkMatch check tag scrutinee cases
  | .whileDo tag condition body => do
    expectBool check condition
    checkSeq check body tag.span
  | .ifElse tag condition thenBody elseBody => checkIf check tag condition thenBody elseBody
  | .block tag items => checkSeq check items tag.span
  | .inst tag template body => checkInst eval check tag template body
  | .unknown _ => Pass.builtin .any

end

end Check

/-- The type of a node; `depth` bounds the nesting. -/
def check : (depth : Nat) → Node → Pass Node
  | 0, _ => throw .exhausted
  | depth + 1, n => Check.step (eval depth) (check depth) n

/-- The type of a sequence. -/
def checkSeq (depth : Nat) (items : List Node) (site : Span) : Pass Node :=
  Check.checkSeq (check depth) items site

/-- The type that a type expression denotes. -/
def typeExpr (depth : Nat) (ty : Node) : Pass Node := Check.typeExpr (eval depth) (check depth) ty

end Residual
