/-
Why checking or evaluating a node gives no result, and what is said about it. An error names its
cause by the nodes and locations involved; the wording is in `message` and `labels` alone.
-/
import Residual.Diagnostic
import Residual.Node.Printer

namespace Residual

/-! ## Errors in a program -/

inductive TypeError where
  | unknownName (name : Name) (site : Span)
  | alreadyDefined (name : Name) (site previous : Span)
  | invalidTarget (target : Node) (site : Span)
  | notCallable (ty : Node) (site : Span)
  | argumentMismatch (expected found : Node) (call arg definition : Span)
  | operandNotNumber (op : Operator) (found : Node) (operand : Span)
  | typeMismatch (expected found : Node) (site : Span)
  | branchMismatch (left right : Node) (leftSite rightSite : Span)
  | conditionNotBool (found : Node) (site : Span)
  | cannotInfer (site : Span)
  | emptySequence (site : Span)
  | notAType (found : Node) (site : Span)
  | notInstantiable (ty : Node) (site : Span)
  | noSuchField (field ty : Node) (site : Span)
  | missingField (field : Name) (ty : Node) (site : Span)
  | notAMember (member ty : Node) (site : Span)
  | outOfRange (value : Float) (range : Range) (site : Span)
  | noMatchingCase (scrutinee : Node) (site : Span)

namespace TypeError

def message (layout : Layout) : TypeError → String
  | unknownName name _ => s!"alias `{name}` does not exist"
  | alreadyDefined name _ _ => s!"`{name}` is already defined"
  | invalidTarget target _ => s!"cannot bind a value to `{layout.inline target}`"
  | notCallable ty _ => s!"cannot call type `{layout.inline ty}`"
  | argumentMismatch expected found _ _ _ =>
    s!"argument type mismatch: expected `{layout.inline expected}`, found `{layout.inline found}`"
  | operandNotNumber op found _ =>
    s!"operator `{op.symbol}` expects `Number`, found `{layout.inline found}`"
  | typeMismatch expected found _ =>
    s!"type mismatch: expected `{layout.inline expected}`, found `{layout.inline found}`"
  | branchMismatch left right _ _ =>
    s!"branches have different types: `{layout.inline left}` and `{layout.inline right}`"
  | conditionNotBool found _ => s!"condition must be `Bool`, found `{layout.inline found}`"
  | cannotInfer _ => "cannot infer a type: every branch is still being checked recursively"
  | emptySequence _ => "an empty sequence has no value"
  | notAType found _ => s!"`{layout.inline found}` is not a type"
  | notInstantiable ty _ => s!"cannot construct an instance of `{layout.inline ty}`"
  | noSuchField field ty _ => s!"no field `{layout.inline field}` on `{layout.inline ty}`"
  | missingField field ty _ => s!"missing field `{field}` of `{layout.inline ty}`"
  | notAMember member ty _ => s!"`{layout.inline member}` is not a member of `{layout.inline ty}`"
  | outOfRange value range _ =>
    s!"{Number.text value} is outside of {Number.text range.lo}..{Number.text range.hi}"
  | noMatchingCase scrutinee _ => s!"no case matches `{layout.inline scrutinee}`"

/-- The locations involved, and what each is. -/
def labels : TypeError → List Label
  | unknownName _ site => [⟨site, "not found in any scope"⟩]
  | alreadyDefined _ site previous =>
    [⟨site, "redefined here"⟩, ⟨previous, "previously defined here"⟩]
  | invalidTarget _ site => [⟨site, "binding target"⟩]
  | notCallable _ site => [⟨site, "called here"⟩]
  | argumentMismatch _ _ call arg definition =>
    [⟨call, "call site"⟩, ⟨arg, "argument"⟩, ⟨definition, "function definition"⟩]
  | operandNotNumber _ _ operand => [⟨operand, "this operand"⟩]
  | typeMismatch _ _ site => [⟨site, "mismatched value"⟩]
  | branchMismatch _ _ leftSite rightSite =>
    [⟨leftSite, "this branch"⟩, ⟨rightSite, "that branch"⟩]
  | conditionNotBool _ site => [⟨site, "condition"⟩]
  | cannotInfer site => [⟨site, "recursive reference"⟩]
  | emptySequence site => [⟨site, "empty"⟩]
  | notAType _ site => [⟨site, "expected a type"⟩]
  | notInstantiable _ site => [⟨site, "template"⟩]
  | noSuchField _ _ site => [⟨site, "field access"⟩]
  | missingField _ _ site => [⟨site, "instance"⟩]
  | notAMember _ _ site => [⟨site, "member"⟩]
  | outOfRange _ _ site => [⟨site, "value"⟩]
  | noMatchingCase _ site => [⟨site, "match"⟩]

def diagnostic (e : TypeError) (layout : Layout) : Diagnostic := ⟨e.message layout, e.labels⟩

end TypeError

/-! ## Faults -/

/-- Why a pass ended without a result. -/
inductive Fault where
  /-- The type hangs on a definition that is still being checked. -/
  | void
  /-- The program is wrong. -/
  | error (e : TypeError)
  /-- A callee reduced to a function although its type is not a function type. -/
  | contradiction (func ty : Node)
  /-- The nesting went deeper than was allowed. -/
  | exhausted

namespace Fault

/-- Faults of the node at hand; the others end the whole pass. -/
def isOrdinary : Fault → Bool
  | void | error _ => true
  | contradiction .. | exhausted => false

/-- What is said of a function that is not typed as one. -/
def contradictionText (layout : Layout) (func ty : Node) : String :=
  s!"function `{layout.inline func}` has non-function type `{layout.inline ty}`"

end Fault

end Residual
