/-
Passes over nodes. A pass reads and changes the environment, makes new nodes, and ends with a
result or a fault; the environment survives a fault.
-/
import Residual.Counter
import Residual.Env
import Residual.Fault

namespace Residual

/-- What a pass works on: the environment, and the counter of node identities. -/
structure Machine where
  env : Env
  nodes : Counter
  deriving Inhabited

abbrev Pass := ExceptT Fault (StateM Machine)

namespace Pass

/-- Runs a pass: its result, and what it leaves. -/
def runOn {α : Type} (m : Pass α) (s : Machine) : Except Fault α × Machine := m s

def env : Pass Env := return (← get).env

/-- A tag with a new identity. -/
def tagAt (span : Span) : Pass Tag := modifyGet fun s =>
  let (id, nodes) := s.nodes.alloc
  (⟨id, span⟩, { s with nodes })

/-- A built-in type as a new node. -/
def builtin (b : Builtin) : Pass Node := return .builtin (← tagAt .builtin) b

def push (b : Binding) : Pass PUnit := modify fun s => { s with env := s.env.push b }

def fail {α : Type} (e : TypeError) : Pass α := throw (.error e)

/-- Runs a pass under a guard. What the guard puts back is put back after a fault as well. -/
def under {α : Type} (g : Guard) (m : Pass α) : Pass α := fun s =>
  let (r, after) := m.runOn { s with env := g.enter s.env }
  (r, { after with env := g.leave s.env after.env })

/-- Runs a pass and hands its ordinary faults on as a value. -/
def attempt {α : Type} (m : Pass α) : Pass (Except Fault α) := fun s =>
  match m.runOn s with
  | (.ok a, after) => (.ok (.ok a), after)
  | (.error f, after) => (if f.isOrdinary then .ok (.error f) else .error f, after)

/-- The value of a name that is found; a built-in type becomes a new node. -/
def valueOf : Found → Pass Node
  | .bound b => return b.value
  | .defined _ value => return value
  | .builtin b => builtin b

end Pass

end Residual
