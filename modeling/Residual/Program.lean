/-
Programs: top-level nodes are added one at a time; each is checked and evaluated over the
definitions made so far. An alias at top level defines its name. Its definition is registered
before the alias is checked, so that it may be recursive, and the evaluated value takes its place
afterwards if it is fully known. A failure leaves what was registered.
-/
import Residual.Builder
import Residual.Check
import Residual.Settings

namespace Residual

/-- A top-level node that has been added, its type and its value. -/
structure Outcome where
  node : Node
  ty : Node
  value : Node
  deriving Inhabited

/-! ## Failures -/

/-- Why a node could not be added. -/
inductive Failure where
  | diagnosed (d : Diagnostic)
  /-- The type of a node, shown here as text, hangs on itself. -/
  | uninferable (node : String)
  /-- A function turned out not to be typed as one; the text says which. -/
  | contradiction (text : String)
  /-- The nesting went deeper than was allowed. -/
  | exhausted

namespace Failure

def message : Failure → String
  | diagnosed d => d.message
  | uninferable node => s!"cannot infer the type of `{node}`"
  | contradiction text => text
  | exhausted => "nesting is too deep"

def render (f : Failure) (colour : Bool) : String :=
  match f with
  | diagnosed d => d.render colour
  | f => Style.boldRed.paintIf colour "error" ++ ": " ++ f.message

/-- The failure that a fault at a node amounts to. -/
def ofFault (layout : Layout) (node : Node) : Fault → Failure
  | .void => .uninferable (Layout.standard.inline node)
  | .error e => .diagnosed (e.diagnostic layout)
  | .contradiction func ty => .contradiction (Fault.contradictionText layout func ty)
  | .exhausted => .exhausted

end Failure

/-! ## Programs -/

structure Program where
  settings : Settings
  /-- Definitions as they were given, in order. -/
  definitions : Definitions
  /-- Links of aliases to definitions. -/
  links : Links
  builder : Builder
  /-- Nodes added so far, in order. -/
  outcomes : List Outcome
  deriving Inhabited

namespace Program

/-- A program without nodes. -/
def start (settings : Settings) : Program :=
  { settings, definitions := .empty, links := .empty, builder := .start, outcomes := [] }

/-- Builds a node for the program. -/
def build {α : Type} (p : Program) (b : Build α) : α × Program :=
  let (a, builder) := b.run p.builder
  (a, { p with builder })

/-- A node as text in the layout of the program. -/
def print (p : Program) (n : Node) : String := p.settings.layout.print n

/-- The value of a definition. -/
def lookup (p : Program) (name : Name) : Option Node :=
  (p.definitions.lookup name).map (·.2)

/-- The environment in which a top-level node is looked at. -/
def env (p : Program) : Env := .start p.definitions p.links p.settings.layout

/-- Runs a pass over the definitions of the program, in the given mode. -/
def run {α : Type} (p : Program) (resolve : Bool) (m : Pass α) : Except Fault α × Program :=
  let (r, s) := m.runOn ⟨{ p.env with resolve }, p.builder.nodes⟩
  (r, { p with builder := { p.builder with nodes := s.nodes } })

/-- Links an alias to a definition, unless it is linked already. -/
def linkTo (p : Program) (node : Node) (d : DefId) : Program :=
  { p with links := p.links.insert node d }

/-- Registers the definition that an alias makes. A name that is taken stays as it is, and the
checker reports it. Gives the definition that the alias is linked to. -/
def define (p : Program) (node : Node) : Option DefId × Program :=
  match node with
  | .assign _ (.ident _ name) value _ _ =>
    if p.definitions.contains name || (Builtin.ofName? name).isSome then (none, p)
    else
      let (d, definitions) := p.definitions.register name value
      let p := { p with definitions }.linkTo node d
      (p.links.of? node, p)
  | _ => (none, p)

/-- The value to store for a definition. Functions written as such are stored as they are, since
recursion is noticed by identity; other values are stored once they are fully known. -/
def storedValue? (node value : Node) : Option Node :=
  match node, value with
  | .assign _ _ source _ _, .assign _ _ result _ _ =>
    if result.isStatic && !source.isFunc then some result else none
  | _, _ => none

/-- Stores the value of a definition. -/
def store (p : Program) (d : Option DefId) (node value : Node) : Program :=
  match d, storedValue? node value with
  | some d, some result => { p with definitions := p.definitions.replace d result }
  | _, _ => p

/-- Checks and evaluates a node and records the outcome; `depth` bounds the nesting. -/
def add (p : Program) (depth : Nat) (node : Node) : Except Failure Outcome × Program :=
  let (d, p) := p.define node
  match p.run true (check depth node) with
  | (.error f, p) => (.error (.ofFault p.settings.layout node f), p)
  | (.ok ty, p) =>
    match p.run p.settings.resolve (eval depth node) with
    | (.error f, p) => (.error (.ofFault p.settings.layout node f), p)
    | (.ok value, p) =>
      let outcome := { node, ty, value }
      let p := p.store d node value
      (.ok outcome, { p with outcomes := p.outcomes ++ [outcome] })

/-- Adds nodes in order, up to the first failure. -/
def addAll (p : Program) (depth : Nat) : List Node → Except Failure PUnit × Program
  | [] => (.ok ⟨⟩, p)
  | node :: nodes =>
    match p.add depth node with
    | (.ok _, p) => p.addAll depth nodes
    | (.error f, p) => (.error f, p)

end Program

end Residual
