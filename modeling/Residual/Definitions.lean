/-
The definitions of a program, in the order in which their names were first registered. A name has
one definition and keeps its place; only the value can be replaced.
-/
import Residual.Node.Basic

namespace Residual

/-- Names with their values, in the order of registration. -/
structure Definitions where
  entries : List (Name × Node)
  deriving Inhabited

namespace Definitions

def empty : Definitions := ⟨[]⟩

def size (defs : Definitions) : Nat := defs.entries.length

/-- The place of a name. -/
def find? (defs : Definitions) (name : Name) : Option DefId :=
  defs.entries.findIdx? (·.1 == name)

def contains (defs : Definitions) (name : Name) : Bool := defs.entries.any (·.1 == name)

def get? (defs : Definitions) (d : DefId) : Option (Name × Node) := defs.entries[d]?

/-- The place and the value of a name. -/
def lookup (defs : Definitions) (name : Name) : Option (DefId × Node) := do
  let d ← defs.find? name
  let (_, value) ← defs.get? d
  return (d, value)

/-- Gives a definition another value; without such a definition nothing happens. -/
def replace (defs : Definitions) (d : DefId) (value : Node) : Definitions :=
  ⟨defs.entries.modify d fun (name, _) => (name, value)⟩

/-- Registers a name behind the others, or gives it another value if it is there. -/
def register (defs : Definitions) (name : Name) (value : Node) : DefId × Definitions :=
  match defs.find? name with
  | some d => (d, defs.replace d value)
  | none => (defs.size, ⟨defs.entries ++ [(name, value)]⟩)

end Definitions

end Residual
