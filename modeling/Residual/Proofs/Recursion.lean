/-
Recursive programs on known inputs. The definitions of a program are literals and functions, which
call each other, and themselves, by name; what they compute is data. Such a program has a plain
reading as a call-by-value language with lexical scope: a call runs the body of the function with
nothing in scope but the parameter.

The evaluator has one stack of bindings, on which a body finds those of its callers as well, and it
notices functions that are being called already. Neither matters for a call on data. The innermost
binding of a name is that of the activation at hand, because each name in scope has been bound in it,
and a recursive call is unfolded because its argument is known.
-/
import Residual.Proofs.Known
import Residual.Proofs.Preservation

namespace Residual

/-! ## Data -/

/-- What first-order programs compute. -/
inductive Datum where
  | lit (value : Literal)
  | list (items : List Datum)

namespace Datum

def number? : Datum → Option Float
  | lit (.number x) => some x
  | _ => none

def bool? : Datum → Option Bool
  | lit (.bool b) => some b
  | _ => none

mutual

/-- Equality of data; numbers are equal as numbers. -/
def equal : Datum → Datum → Bool
  | lit a, lit b => a == b
  | list as, list bs => equalItems as bs
  | _, _ => false

def equalItems : List Datum → List Datum → Bool
  | [], [] => true
  | a :: as, b :: bs => equal a b && equalItems as bs
  | _, _ => false

end

end Datum

mutual

/-- A node that is a datum. -/
inductive Shows : Datum → Node → Prop where
  | lit (tag : Tag) (l : Literal) : Shows (.lit l) (.lit tag l)
  | list {ds : List Datum} {ns : List Node} (tag : Tag) (h : ShowsItems ds ns) :
    Shows (.list ds) (.list tag ns)

inductive ShowsItems : List Datum → List Node → Prop where
  | nil : ShowsItems [] []
  | cons {d : Datum} {n : Node} {ds : List Datum} {ns : List Node} (h : Shows d n)
    (hs : ShowsItems ds ns) : ShowsItems (d :: ds) (n :: ns)

end

namespace Shows

variable {v : Datum} {n : Node}

theorem isAlias (h : Shows v n) : n.isAlias = false := by cases h <;> rfl

theorem isPlaceholder (h : Shows v n) : n.isPlaceholder = false := by cases h <;> rfl

theorem number?_eq (h : Shows v n) : n.number? = v.number? := by
  cases h with
  | lit tag l => cases l <;> rfl
  | list => rfl

theorem bool?_eq (h : Shows v n) : n.bool? = v.bool? := by
  cases h with
  | lit tag l => cases l <;> rfl
  | list => rfl

end Shows

mutual

theorem Shows.isStatic : ∀ {v : Datum} {n : Node}, Shows v n → n.isStatic = true
  | _, _, .lit .. => rfl
  | _, _, .list _ h => h.allStatic

theorem ShowsItems.allStatic : ∀ {vs : List Datum} {ns : List Node}, ShowsItems vs ns →
    Node.allStatic ns = true
  | _, _, .nil => rfl
  | _, _, .cons h hs => by rw [Node.allStatic, h.isStatic, hs.allStatic]; rfl

end

mutual

/-- Nodes that are data are equal if the data are. -/
theorem Shows.equal_eq (links : Links) : ∀ {v w : Datum} {n m : Node}, Shows v n → Shows w m →
    Node.equal links n m = v.equal w
  | _, _, _, _, .lit .., .lit .. => by rw [Node.equal, Datum.equal]
  | _, _, _, _, .list _ h, .list _ h' => by
    rw [Node.equal, Datum.equal, h.equalItems_eq links h']
  | _, _, _, _, .lit .., .list .. => by simp [Node.equal, Datum.equal]
  | _, _, _, _, .list .., .lit .. => by simp [Node.equal, Datum.equal]

theorem ShowsItems.equalItems_eq (links : Links) : ∀ {vs ws : List Datum} {ns ms : List Node},
    ShowsItems vs ns → ShowsItems ws ms → Node.equalList links ns ms = Datum.equalItems vs ws
  | _, _, _, _, .nil, .nil => by rw [Node.equalList, Datum.equalItems]
  | _, _, _, _, .cons h hs, .cons h' hs' => by
    rw [Node.equalList, Datum.equalItems, h.equal_eq links h', hs.equalItems_eq links hs']
  | _, _, _, _, .nil, .cons .. => by simp [Node.equalList, Datum.equalItems]
  | _, _, _, _, .cons .., .nil => by simp [Node.equalList, Datum.equalItems]

end

namespace Recursion

/-! ## The reference interpreter -/

/-- Data for names, the innermost first. -/
abbrev Scope := List (Name × Datum)

section

variable (store : Definitions) (run : Scope → Node → Option Datum)

/-- A name stands for what it is bound to in the scope, or else for a literal that it is defined as. -/
def value? (scope : Scope) (x : Name) : Option Datum :=
  match scope.lookup x, store.lookup x with
  | some v, _ => some v
  | none, some (_, .lit _ l) => some (.lit l)
  | none, _ => none

/-- The value of a sequence is that of its last node. An alias has none; it binds its name for the
nodes after it. -/
def runSeq : Scope → List Node → Option Datum
  | _, [] => none
  | scope, .assign _ (.ident _ x) value _ _ :: rest => do
    let v ← run scope value
    runSeq ((x, v) :: scope) rest
  | scope, [last] => run scope last
  | scope, item :: rest => do
    let _ ← run scope item
    runSeq scope rest

/-- Whether a pattern is `_` or has a value equal to `v`. -/
def runPattern (scope : Scope) (v : Datum) (pattern : Node) : Option Bool :=
  if pattern.isWildcard then some true else (run scope pattern).map (·.equal v)

/-- The value of the first case that matches. -/
def runCases (scope : Scope) (v : Datum) : List (Case Node) → Option Datum
  | [] => none
  | c :: cs => do
    let hit ← runPattern run scope v c.pattern
    if hit then runSeq run scope c.body else runCases scope v cs

/-- A call runs the body of a defined function with nothing in scope but its parameter. -/
def runCall (scope : Scope) (f : Name) (arg : Node) : Option Datum :=
  match scope.lookup f, store.lookup f with
  | none, some (_, .func _ param body) => do
    let v ← run scope arg
    runSeq run [(param.name, v)] body
  | _, _ => none

/-- The value of a node, with `run` for the parts. -/
def runStep (scope : Scope) : Node → Option Datum
  | .lit _ l => some (.lit l)
  | .ident _ x => value? store scope x
  | .list _ items => (items.mapM (run scope)).map .list
  | .binOp _ op lhs rhs => do
    let a ← (← run scope lhs).number?
    let b ← (← run scope rhs).number?
    return .lit (← op.fold a b)
  | .ifElse _ c thenBody elseBody => do
    let taken ← (← run scope c).bool?
    runSeq run scope (if taken then thenBody else elseBody)
  | .matchOn _ scrutinee cases => do runCases run scope (← run scope scrutinee) cases
  | .block _ items => runSeq run scope items
  | .call _ (.ident _ f) arg => runCall store run scope f arg
  | _ => none

end

/-- The value of a node over definitions; `fuel` bounds the nesting. -/
def interpret (store : Definitions) : (fuel : Nat) → Scope → Node → Option Datum
  | 0, _, _ => none
  | fuel + 1, scope, n => runStep store (interpret store fuel) scope n

/-! ## Programs -/

mutual

/-- An expression: literals, names, lists, operators, branches, blocks and calls of defined
functions. -/
inductive Code (store : Definitions) : Node → Prop where
  | lit (tag : Tag) (l : Literal) : Code store (.lit tag l)
  | ident (tag : Tag) (x : Name) : Code store (.ident tag x)
  | list {items : List Node} (tag : Tag) (h : ∀ e ∈ items, Code store e) :
    Code store (.list tag items)
  | binOp {op : Operator} {lhs rhs : Node} (tag : Tag) (hop : op ≠ .dot) (hl : Code store lhs)
    (hr : Code store rhs) : Code store (.binOp tag op lhs rhs)
  | ifElse {c : Node} {thenBody elseBody : List Node} (tag : Tag) (hc : Code store c)
    (ht : Body store thenBody) (he : Body store elseBody) :
    Code store (.ifElse tag c thenBody elseBody)
  | matchOn {scrutinee : Node} {cases : List (Case Node)} (tag : Tag) (hs : Code store scrutinee)
    (hp : ∀ c ∈ cases, c.pattern.isWildcard = false → Code store c.pattern)
    (hb : ∀ c ∈ cases, Body store c.body) : Code store (.matchOn tag scrutinee cases)
  | block {items : List Node} (tag : Tag) (h : Body store items) : Code store (.block tag items)
  | call {f : Name} {d : DefId} {t : Tag} {param : Decl Node} {body : List Node} {arg : Node}
    (tag ftag : Tag) (hf : store.lookup f = some (d, .func t param body)) (harg : Code store arg) :
    Code store (.call tag (.ident ftag f) arg)

/-- A sequence of expressions and aliases that ends in an expression. No alias takes a name that is
defined or built in. -/
inductive Body (store : Definitions) : List Node → Prop where
  | last {n : Node} (h : Code store n) : Body store [n]
  | next {n : Node} {rest : List Node} (h : Code store n) (hrest : Body store rest) :
    Body store (n :: rest)
  | bind {x : Name} {value : Node} {transparent : Bool} {link : Option DefId} {rest : List Node}
    (tag xtag : Tag) (h : Code store value) (hx : store.IsFree x) (hrest : Body store rest) :
    Body store (.assign tag (.ident xtag x) value transparent link :: rest)

end

/-- Every definition is a literal, or a function whose parameter takes no name that is defined or
built in and whose body is one of the program. -/
def IsProgram (store : Definitions) : Prop :=
  ∀ {x d v}, store.lookup x = some (d, v) → v.isLiteral = true ∨
    ∃ tag param body, v = .func tag param body ∧ store.IsFree param.name ∧ Body store body

theorem Code.isAlias {store : Definitions} {n : Node} (h : Code store n) : n.isAlias = false := by
  cases h <;> rfl

theorem Body.ne_nil {store : Definitions} {items : List Node} (h : Body store items) :
    items ≠ [] := by
  cases h <;> simp

section

variable {run : Scope → Node → Option Datum} {scope : Scope} {n : Node}

theorem runSeq_last (hn : n.isAlias = false) : runSeq run scope [n] = run scope n := by
  cases n <;> first | rfl | cases hn

theorem runSeq_next {rest : List Node} (hn : n.isAlias = false) (hne : rest ≠ []) :
    runSeq run scope (n :: rest) = (run scope n).bind fun _ => runSeq run scope rest := by
  cases rest with
  | nil => exact absurd rfl hne
  | cons m rest => cases n <;> first | rfl | cases hn

end

/-! ## Activations -/

/-- The environment in which a body is evaluated. What is in scope is bound to its value; of the
callers' bindings below nothing is asked, except that they hide no definition. -/
structure Activation (store : Definitions) (scope : Scope) (env : Env) :
    Prop extends env.Over store where
  resolve : env.resolve = true
  vars : ∀ {x v}, scope.lookup x = some v → ∃ b, env.locals.find? x = some b ∧ Shows v b.value

namespace Activation

variable {store : Definitions} {scope : Scope} {env : Env}

/-- A name that is bound stands for its value from now on, whatever it stood for. -/
theorem push (h : Activation store scope env) {b : Binding} {v : Datum} (hb : store.IsFree b.name)
    (hv : Shows v b.value) : Activation store ((b.name, v) :: scope) (env.push b) where
  toOver := h.toOver.push hb
  resolve := h.resolve
  vars {x w} hx := by
    by_cases hname : x = b.name
    · subst hname
      rw [List.lookup_cons_self] at hx
      cases hx
      exact ⟨b, env.locals.find?_push_self b, hv⟩
    · rw [FirstOrder.lookup_cons_of_ne v hname] at hx
      obtain ⟨c, hfind, hc⟩ := h.vars hx
      exact ⟨c, (Locals.find?_push_of_ne hname).trans hfind, hc⟩

/-- Inside a call nothing is in scope but the parameter. -/
theorem apply (h : Activation store scope env) (callee : Node) {b : Binding} {v : Datum}
    (hb : store.IsFree b.name) (hv : Shows v b.value) :
    Activation store [(b.name, v)] ({ env.enterCall callee with transparent := true }.push b) := by
  have hentered : Activation store [] { env.enterCall callee with transparent := true } :=
    { store_eq := h.store_eq, names := h.names, resolve := h.resolve, vars := fun hx => by cases hx }
  exact hentered.push hb hv

end Activation

/-! ## The evaluator and the interpreter -/

open Pass

variable {store : Definitions} {env : Env} {scope : Scope}

theorem returns_value {x : Name} {v : Datum} (hv : value? store scope x = some v)
    (henv : Activation store scope env) (tag : Tag) :
    Returns env (fun d => eval d (.ident tag x)) NoFault (Shows v) := by
  unfold value? at hv
  split at hv
  · rename_i w _ hx
    cases hv
    obtain ⟨b, hfind, hb⟩ := henv.vars hx
    exact (returns_found henv.resolve (Env.lookup_bound hfind) hb.isPlaceholder rfl tag).mono
      fun _ hn => hn ▸ hb
  · rename_i d t l _ hx
    cases hv
    exact (returns_found henv.resolve (henv.toOver.lookup_defined hx) rfl rfl tag).mono
      fun _ hn => hn ▸ .lit t l
  · cases hv

section

variable {run : Scope → Node → Option Datum}
  (ih : ∀ {scope n v env}, run scope n = some v → Code store n → Activation store scope env →
    Returns env (fun d => eval d n) NoFault (Shows v))

include ih

theorem evals_runSeq {items : List Node} (h : Body store items) : ∀ {scope v env},
    runSeq run scope items = some v → Activation store scope env →
    EvalsSeq env items NoFault (Shows v) := by
  induction items with
  | nil => exact absurd rfl h.ne_nil
  | cons item rest ihrest =>
    intro scope v env hv henv
    cases h with
    | last hitem =>
      rw [runSeq_last hitem.isAlias] at hv
      exact .last (ih hv hitem henv) fun _ hw => hw.isAlias
    | next hitem hrest =>
      rw [runSeq_next hitem.isAlias hrest.ne_nil] at hv
      obtain ⟨u, hu, hv⟩ := Option.bind_eq_some_iff.1 hv
      exact .next (ih hu hitem henv) (fun _ hw => hw.isAlias) (ihrest hrest hv henv)
    | bind tag xtag hvalue hx hrest =>
      obtain ⟨u, hu, hv⟩ := Option.bind_eq_some_iff.1 hv
      exact .bind tag xtag _ _ (ih hu hvalue henv) fun w hw =>
        ihrest hrest hv (henv.push (b := ⟨_, w, _, _⟩) hx hw)

theorem returns_runItems : ∀ {items : List Node} {vs : List Datum}, (∀ e ∈ items, Code store e) →
    items.mapM (run scope) = some vs → Activation store scope env →
    Returns env (fun d => items.mapM (eval d)) NoFault (ShowsItems vs)
  | [], _, _, hvs, _ => by
    rw [List.mapM_nil] at hvs
    cases hvs
    simp only [List.mapM_nil]
    exact returns_pure .nil
  | item :: items, _, h, hvs, henv => by
    rw [List.mapM_cons] at hvs
    obtain ⟨v, hv, hvs⟩ := Option.bind_eq_some_iff.1 hvs
    obtain ⟨us, hus, hvs⟩ := Option.bind_eq_some_iff.1 hvs
    cases hvs
    simp only [List.mapM_cons]
    refine (ih hv (h item (by simp)) henv).bind fun w hw => ?_
    refine (returns_runItems (fun e he => h e (by simp [he])) hus henv).bind fun ws hws => ?_
    exact returns_pure (.cons hw hws)

theorem returns_runPattern {pattern : Node} {u : Datum} {m : Node} {hit : Bool} (hm : Shows u m)
    (hp : pattern.isWildcard = false → Code store pattern)
    (hhit : runPattern run scope u pattern = some hit) (henv : Activation store scope env) :
    Returns env (fun d => Eval.isMatch (eval d) pattern m) NoFault (· = hit) := by
  cases hw : pattern.isWildcard with
  | true =>
    rw [runPattern, hw] at hhit
    cases hhit
    refine (Eval.returns_isMatch (Q := fun _ => False) m fun h => ?_).mono fun b hb => ?_
    · rw [hw] at h
      cases h
    · simpa [hw] using hb
  | false =>
    rw [runPattern, hw] at hhit
    obtain ⟨p, hpattern, rfl⟩ := Option.map_eq_some_iff.1 hhit
    refine (Eval.returns_isMatch m fun _ => ih hpattern (hp hw) henv).mono fun b hb => ?_
    rw [hw] at hb
    obtain ⟨w, hw, rfl⟩ := hb
    exact hw.equal_eq env.links hm

theorem returns_runCases {u : Datum} {m : Node} (hm : Shows u m) (site : Span) :
    ∀ {cases : List (Case Node)} {v : Datum},
    (∀ c ∈ cases, c.pattern.isWildcard = false → Code store c.pattern) →
    (∀ c ∈ cases, Body store c.body) → runCases run scope u cases = some v →
    Activation store scope env →
    Returns env (fun d => Eval.evalCases (eval d) m site cases) NoFault (Shows v)
  | [], _, _, _, hv, _ => by cases hv
  | c :: cs, v, hp, hb, hv, henv => by
    obtain ⟨hit, hhit, hv⟩ := Option.bind_eq_some_iff.1 hv
    refine Eval.returns_evalCases_cons (returns_runPattern ih hm (hp c (by simp)) hhit henv)
      (fun h => ?_) fun h => ?_
    · subst h
      exact (evals_runSeq ih (hb c (by simp)) hv henv).value henv.resolve c.span
    · subst h
      exact returns_runCases hm site (fun c hc => hp c (by simp [hc]))
        (fun c hc => hb c (by simp [hc])) hv henv

/-- A call on data is unfolded, whether or not the function is being called already. -/
theorem returns_runCall (hstore : IsProgram store) {f : Name} {arg : Node} {v : Datum}
    (hv : runCall store run scope f arg = some v) (harg : Code store arg)
    (henv : Activation store scope env) (tag ftag : Tag) :
    Returns env (fun d => eval d (.call tag (.ident ftag f) arg)) NoFault (Shows v) := by
  unfold runCall at hv
  split at hv
  · rename_i d t param body _ hf
    obtain ⟨u, hu, hv⟩ := Option.bind_eq_some_iff.1 hv
    obtain hlit | ⟨t', param', body', heq, hparam, hbody⟩ := hstore hf
    · cases hlit
    · cases heq
      -- The argument is data, so the call is unfolded even if the function is on the stack.
      refine returns_unfold tag henv.resolve (returns_function henv.toOver hf ftag)
        (ih hu harg henv) (fun _ hw => .inr hw.isStatic) fun w hw => evals_runSeq ih hbody hv ?_
      exact henv.apply (.func t param body) (b := ⟨param.name, w, true, none⟩) hparam hw
  · cases hv

/-- One step of the interpreter is one of the evaluator. -/
theorem returns_runStep (hstore : IsProgram store) {n : Node} {v : Datum} (hn : Code store n)
    (hv : runStep store run scope n = some v) (henv : Activation store scope env) :
    Returns env (fun d => eval d n) NoFault (Shows v) := by
  cases hn with
  | lit tag l =>
    cases hv
    exact Returns.succ (returns_pure (.lit tag l))
  | ident tag x => exact returns_value hv henv tag
  | list tag h =>
    obtain ⟨vs, hvs, rfl⟩ := Option.map_eq_some_iff.1 hv
    exact Returns.succ ((returns_runItems ih h hvs henv).bind fun ns hns =>
      (returns_tagAt _).bind fun t _ => returns_pure (.list t hns))
  | binOp tag hop hl hr =>
    obtain ⟨a, ha, hv⟩ := Option.bind_eq_some_iff.1 hv
    obtain ⟨x, hx, hv⟩ := Option.bind_eq_some_iff.1 hv
    obtain ⟨b, hb, hv⟩ := Option.bind_eq_some_iff.1 hv
    obtain ⟨y, hy, hv⟩ := Option.bind_eq_some_iff.1 hv
    obtain ⟨l, hfold, hv⟩ := Option.bind_eq_some_iff.1 hv
    cases hv
    refine returns_fold (A := (· = x)) (B := (· = y)) tag hop
      ((ih ha hl henv).mono fun m hm => ⟨x, hm.number?_eq.trans hx, rfl⟩)
      ((ih hb hr henv).mono fun m hm => ⟨y, hm.number?_eq.trans hy, rfl⟩) fun x' y' hx' hy' => ?_
    subst hx' hy'
    exact ⟨l, hfold, fun t => .lit t l⟩
  | ifElse tag hc ht he =>
    obtain ⟨c, hcond, hv⟩ := Option.bind_eq_some_iff.1 hv
    obtain ⟨taken, htaken, hv⟩ := Option.bind_eq_some_iff.1 hv
    refine returns_branch (R := (· = taken)) tag henv.resolve
      ((ih hcond hc henv).mono fun m hm => ⟨taken, hm.bool?_eq.trans htaken, rfl⟩) fun taken' h => ?_
    subst h
    cases taken' with
    | true => exact evals_runSeq ih ht hv henv
    | false => exact evals_runSeq ih he hv henv
  | matchOn tag hs hp hb =>
    obtain ⟨u, hu, hv⟩ := Option.bind_eq_some_iff.1 hv
    exact returns_decided tag (ih hu hs henv) (fun _ hm => hm.isStatic) fun m hm =>
      returns_runCases ih hm tag.span hp hb hv henv
  | block tag h => exact Returns.succ ((evals_runSeq ih h hv henv).value henv.resolve tag.span)
  | call tag ftag hf harg => exact returns_runCall ih hstore hv harg henv tag ftag

end

/-- Wherever the interpreter gives a value to an expression, the evaluator ends with it. -/
theorem returns_interpret (hstore : IsProgram store) : ∀ {fuel : Nat} {scope n v env},
    interpret store fuel scope n = some v → Code store n → Activation store scope env →
    Returns env (fun d => eval d n) NoFault (Shows v)
  | 0, _, _, _, _, hv, _, _ => by cases hv
  | _ + 1, _, _, _, _, hv, hn, henv =>
    returns_runStep (returns_interpret hstore) hstore hn hv henv

end Recursion

open Recursion in
/-- Recursive programs run on known inputs: if the call of a defined function on a literal has a
literal as its value, then the evaluator ends with that literal. -/
theorem eval_runs_call {store : Definitions} (hstore : IsProgram store) {f : Name} {d : DefId}
    {t : Tag} {param : Decl Node} {body : List Node}
    (hf : store.lookup f = some (d, .func t param body)) (v l : Literal) (tag ftag vtag : Tag)
    {fuel : Nat} {s : Machine} (hs : s.env.IsFresh store) (hresolve : s.env.resolve = true)
    (h : interpret store fuel [] (.call tag (.ident ftag f) (.lit vtag v)) = some (.lit l)) :
    ∃ ltag s' depth, ∀ d ≥ depth, (eval d (.call tag (.ident ftag f) (.lit vtag v))).runOn s =
      (.ok (.lit ltag l), s') := by
  have henv : Activation store [] s.env :=
    { toOver := hs.isOver, resolve := hresolve, vars := fun hx => by cases hx }
  obtain ⟨r, s', hends, depth, hrun⟩ :=
    returns_interpret hstore h (.call tag ftag hf (.lit vtag v)) henv s rfl
  cases r with
  | error e => exact hends.elim
  | ok w =>
    obtain ⟨⟨ltag, _⟩, -⟩ := hends
    exact ⟨ltag, s', depth, hrun⟩

/-- `stop = "c"`, `walk = @s(String) { t = s; match t { "a" => walk("b"), "b" => turn(t), _ => t } }`
and `turn = @s(String) { t = stop; walk(t) }`. -/
def walkDefinitions : Definitions :=
  ⟨[("stop", .lit ⟨0, .builtin⟩ (.string "c")),
    ("walk", .func ⟨1, .builtin⟩ ⟨.builtin, "s", .ident ⟨2, .builtin⟩ "String"⟩
      [.assign ⟨3, .builtin⟩ (.ident ⟨4, .builtin⟩ "t") (.ident ⟨5, .builtin⟩ "s") false none,
      .matchOn ⟨6, .builtin⟩ (.ident ⟨7, .builtin⟩ "t")
        [⟨.builtin, .lit ⟨8, .builtin⟩ (.string "a"), [.call ⟨9, .builtin⟩
          (.ident ⟨10, .builtin⟩ "walk") (.lit ⟨11, .builtin⟩ (.string "b"))]⟩,
        ⟨.builtin, .lit ⟨12, .builtin⟩ (.string "b"), [.call ⟨13, .builtin⟩
          (.ident ⟨14, .builtin⟩ "turn") (.ident ⟨15, .builtin⟩ "t")]⟩,
        ⟨.builtin, .ident ⟨16, .builtin⟩ "_", [.ident ⟨17, .builtin⟩ "t"]⟩]]),
    ("turn", .func ⟨18, .builtin⟩ ⟨.builtin, "s", .ident ⟨19, .builtin⟩ "String"⟩
      [.assign ⟨20, .builtin⟩ (.ident ⟨21, .builtin⟩ "t") (.ident ⟨22, .builtin⟩ "stop") false none,
      .call ⟨23, .builtin⟩ (.ident ⟨24, .builtin⟩ "walk") (.ident ⟨25, .builtin⟩ "t")])]⟩

open Recursion in
theorem isProgram_walkDefinitions : IsProgram walkDefinitions := by
  intro x d v hx
  obtain ⟨entry, hentry, rfl⟩ := Definitions.mem_of_lookup hx
  simp only [walkDefinitions, List.mem_cons, List.not_mem_nil, or_false] at hentry
  obtain rfl | rfl | rfl := hentry
  · exact .inl rfl
  · refine .inr ⟨_, _, _, rfl, ⟨rfl, rfl⟩, .bind _ _ (.ident _ _) ⟨rfl, rfl⟩ (.last ?_)⟩
    refine .matchOn _ (.ident _ _) (fun c hc _ => ?_) fun c hc => ?_
    all_goals
      simp only [List.mem_cons, List.not_mem_nil, or_false] at hc
      obtain rfl | rfl | rfl := hc
    · exact .lit _ _
    · exact .lit _ _
    · exact .ident _ _
    · exact .last (.call _ _ (rfl : walkDefinitions.lookup "walk" = _) (.lit _ _))
    · exact .last (.call _ _ (rfl : walkDefinitions.lookup "turn" = _) (.ident _ _))
    · exact .last (.ident _ _)
  · refine .inr ⟨_, _, _, rfl, ⟨rfl, rfl⟩, .bind _ _ (.ident _ _) ⟨rfl, rfl⟩ (.last ?_)⟩
    exact .call _ _ (rfl : walkDefinitions.lookup "walk" = _) (.ident _ _)

/-- `walk("a")` walks on to `"b"`, turns, and walks from `"c"`, where it stops. -/
theorem eval_runs_walk :
    let call : Node := .call ⟨26, .builtin⟩ (.ident ⟨27, .builtin⟩ "walk")
      (.lit ⟨28, .builtin⟩ (.string "a"))
    Recursion.interpret walkDefinitions 20 [] call = some (.lit (.string "c")) ∧
      ∃ ltag s' depth, ∀ d ≥ depth, (eval d call).runOn (freshMachine walkDefinitions true) =
        (.ok (.lit ltag (.string "c")), s') := by
  have h : Recursion.interpret walkDefinitions 20 []
      (.call ⟨26, .builtin⟩ (.ident ⟨27, .builtin⟩ "walk") (.lit ⟨28, .builtin⟩ (.string "a"))) =
      some (.lit (.string "c")) := rfl
  exact ⟨h, eval_runs_call isProgram_walkDefinitions (rfl : walkDefinitions.lookup "walk" = _) _ _
    _ _ _ (isFresh_freshMachine _ true) rfl h⟩

end Residual
