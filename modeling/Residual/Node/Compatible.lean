/-
Compatibility of types: whether a value of one type may stand where another is required.
-/
import Residual.Node.Basic

namespace Residual

/-- Whether a value of type `found` may stand where `expected` is required. A placeholder on either
side always matches, `Any` accepts everything and `Function` every function. Two function types
match when their results do; all other types match by identity. -/
def compatible (expected found : Node) : Bool :=
  match expected, found with
  | .selfType .., _ => true
  | _, .selfType .. => true
  | .builtin _ .any, _ => true
  | .builtin _ .function, .fnType .. => true
  | .fnType _ _ _ a, .fnType _ _ _ b => compatible a b
  | a, b =>
    match a.typeId?, b.typeId? with
    | some i, some j => i == j
    | _, _ => false

end Residual
