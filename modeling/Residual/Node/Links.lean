/-
Links of aliases to definitions. An alias is linked at most once: it is made with its link, or it is
linked later. A later link belongs to the node, so it holds wherever that very node occurs, and not
in copies made before; copies made afterwards are made with it. Later links are therefore kept
beside the nodes, by identity.
-/
import Residual.Node.Basic

namespace Residual

/-- Links made to nodes that had none, the first one of a node first. -/
structure Links where
  entries : List (NodeId × DefId)
  deriving Repr, Inhabited

namespace Links

def empty : Links := ⟨[]⟩

def find? (links : Links) (id : NodeId) : Option DefId := links.entries.lookup id

/-- The link of an alias that was made with a link or without one. -/
def current (links : Links) (id : NodeId) (made : Option DefId) : Option DefId :=
  made <|> links.find? id

/-- The definition that an alias is linked to. -/
def of? (links : Links) : Node → Option DefId
  | .assign tag _ _ _ link => links.current tag.id link
  | _ => none

/-- Links a node, unless it is linked already. -/
def insert (links : Links) (n : Node) (d : DefId) : Links :=
  if (links.of? n).isSome then links else ⟨links.entries ++ [(n.id, d)]⟩

end Links

end Residual
