/-
The functions and definitions that are being looked into, by which recursion is noticed: a node that
is met again is the very same node, so its identity decides. Each function that is met asks for its
identity, however deep the nesting is, so the identities are kept as a set beside the nodes;
`contains_eq` says that the set holds those of the nodes.
-/
import Std.Data.TreeSet
import Residual.Node.Basic

namespace Residual

/-- The identities of nodes. -/
def Node.ids : List Node → Std.TreeSet NodeId
  | [] => ∅
  | n :: ns => (ids ns).insert n.id

/-- Nodes being looked into, the innermost first, and their identities. -/
structure Calls where
  nodes : List Node
  ids : Std.TreeSet NodeId
  ids_eq : ids = Node.ids nodes

namespace Calls

theorem eq_of_nodes_eq {a b : Calls} (h : a.nodes = b.nodes) : a = b := by
  cases a with
  | mk xs s hs =>
    cases b with
    | mk ys t ht =>
      subst hs ht
      cases h
      rfl

def ofNodes (nodes : List Node) : Calls := ⟨nodes, Node.ids nodes, rfl⟩

def empty : Calls := ofNodes []

instance : Inhabited Calls := ⟨empty⟩

def enter (calls : Calls) (n : Node) : Calls :=
  ⟨n :: calls.nodes, calls.ids.insert n.id, by simp [calls.ids_eq, Node.ids]⟩

/-- The innermost node, and the others. -/
def exit (calls : Calls) : Option Node × Calls := (calls.nodes.head?, ofNodes calls.nodes.tail)

/-- Whether this very node is among them. -/
def contains (calls : Calls) (n : Node) : Bool := calls.ids.contains n.id

@[simp] theorem nodes_enter (calls : Calls) (n : Node) :
    (calls.enter n).nodes = n :: calls.nodes := rfl

theorem contains_eq (calls : Calls) (n : Node) :
    calls.contains n = calls.nodes.any (·.isSame n) := by
  rw [contains, calls.ids_eq]
  generalize calls.nodes = ns
  induction ns with
  | nil => simp [Node.ids]
  | cons m ns ih =>
    rw [Node.ids, Std.TreeSet.contains_insert, ih, List.any_cons, Node.isSame]
    congr 1
    rw [Bool.eq_iff_iff, beq_iff_eq, beq_iff_eq, Std.compare_eq_iff_eq]

end Calls

end Residual
