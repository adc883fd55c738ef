/-
The environment of a pass over a node: local bindings, the functions that are being called, the
mode of evaluation, and the definitions of the program. Names are looked up among the locals from
the innermost outwards, then among the definitions, then among the built-in types.

A guard changes the environment for the time of a run and says what is put back afterwards.
-/
import Residual.Calls
import Residual.Definitions
import Residual.Locals
import Residual.Node.Links
import Residual.Node.Printer

namespace Residual

/-! ## Names -/

/-- A name that is found. -/
inductive Found where
  | bound (binding : Binding)
  | defined (d : DefId) (value : Node)
  | builtin (b : Builtin)

namespace Found

def isTransparent : Found → Bool
  | bound b => b.transparent
  | _ => false

def rename? : Found → Option Name
  | bound b => b.rename
  | _ => none

/-- Whether all that is known of the value is its type. -/
def isPlaceholder : Found → Bool
  | bound b => b.value.isPlaceholder
  | defined _ value => value.isPlaceholder
  | builtin _ => false

/-- Whether this is the definition that a link leads to. -/
def isLinked (link : Option DefId) : Found → Bool
  | defined d _ => link == some d
  | _ => false

/-- Where the value is located. -/
def span : Found → Span
  | bound b => b.value.span
  | defined _ value => value.span
  | builtin _ => .builtin

end Found

/-! ## The environment -/

structure Env where
  locals : Locals
  calls : Calls
  /-- Whether values are reduced as far as possible. -/
  resolve : Bool
  /-- Whether bindings made now are transparent; so while a function body is applied. -/
  transparent : Bool
  layout : Layout
  store : Definitions
  /-- Links of aliases to the definitions. -/
  links : Links
  deriving Inhabited

namespace Env

/-- The environment in which a pass over a top-level node starts. -/
def start (store : Definitions) (links : Links) (layout : Layout) : Env :=
  { locals := .empty, calls := .empty, resolve := true, transparent := false, layout, store, links }

def push (env : Env) (b : Binding) : Env := { env with locals := env.locals.push b }

/-- The innermost binding, and the environment without it. -/
def pop (env : Env) : Option Binding × Env :=
  let (b, locals) := env.locals.pop
  (b, { env with locals })

def lookup (env : Env) (name : Name) : Option Found :=
  match env.locals.find? name with
  | some b => some (.bound b)
  | none =>
    match env.store.lookup name with
    | some (d, value) => some (.defined d value)
    | none => (Builtin.ofName? name).map .builtin

/-- Whether a name is bound or defined. A built-in name is not taken by being built in. -/
def isTaken (env : Env) (name : Name) : Bool :=
  env.locals.contains name || env.store.contains name

/-- The `k`-th name to try in place of `name`. -/
def suffixed (name : Name) (k : Nat) : Name := name ++ "#" ++ toString k

/-- The first of `name#k`, `name#(k + 1)`, … that is not taken, among `tries` of them. -/
def freeSuffix (env : Env) (name : Name) (k : Nat) : (tries : Nat) → Option Name
  | 0 => none
  | tries + 1 =>
    if env.isTaken (suffixed name k) then env.freeSuffix name (k + 1) tries
    else some (suffixed name k)

/-- Another name for a binder whose name is taken, so that it captures no use of the outer name:
the first of `name#0`, `name#1`, … that is not taken. One of as many names as there are bindings
and definitions, and one more, is not taken. -/
def freshName (env : Env) (name : Name) : Option Name :=
  if env.isTaken name then env.freeSuffix name 0 (env.locals.size + env.store.size + 1) else none

def enterCall (env : Env) (n : Node) : Env := { env with calls := env.calls.enter n }

/-- The innermost call, and the environment without it. -/
def exitCall (env : Env) : Option Node × Env :=
  let (n, calls) := env.calls.exit
  (n, { env with calls })

/-- Whether this very node is being looked into. -/
def isOnStack (env : Env) (n : Node) : Bool := env.calls.contains n

/-- A node as diagnostics show it. -/
def inline (env : Env) (n : Node) : String := env.layout.inline n

end Env

/-! ## Guards -/

/-- A change of the environment around a run: what is done before it, and what is put back after
it, given the environments before and after. -/
structure Guard where
  enter : Env → Env
  leave : (before after : Env) → Env

namespace Guard

/-- Closes a scope: bindings that were added go, and the calls are as before. -/
def closeScope (before after : Env) : Env :=
  { after with locals := after.locals.truncate before.locals.size, calls := before.calls }

/-- A scope of its own. -/
def scope : Guard := ⟨fun env => env, closeScope⟩

/-- A scope with one more binding. -/
def binding (b : Binding) : Guard := ⟨(·.push b), closeScope⟩

/-- A scope inside a call. -/
def call (n : Node) : Guard := ⟨(·.enterCall n), closeScope⟩

/-- Another mode of evaluation. -/
def resolve (r : Bool) : Guard :=
  ⟨fun env => { env with resolve := r },
    fun before after => { after with resolve := before.resolve }⟩

def transparent (t : Bool) : Guard :=
  ⟨fun env => { env with transparent := t },
    fun before after => { after with transparent := before.transparent }⟩

/-- No locals: only definitions and built-ins are seen. -/
def globals : Guard :=
  ⟨fun env => { env with locals := .empty },
    fun before after => { after with locals := before.locals }⟩

end Guard

end Residual
