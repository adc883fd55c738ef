/-
Equality of nodes by content: tags and locations do not count. Numbers are equal as numbers, so
that a node that holds something that is no number differs from itself. Types are equal only with
equal identities, and aliases only with the same link.
-/
import Residual.Node.Links

namespace Residual.Node

mutual

/-- Equality by content, with the links of the moment. -/
def equal (links : Links) : Node → Node → Bool
  | lit _ a, lit _ b => a == b
  | list _ a, list _ b => equalList links a b
  | record _ i a r, record _ j b s => i == j && equalDecls links a b && r == s
  | enum _ i a, enum _ j b => i == j && a == b
  | fnType _ i a r, fnType _ j b s => i == j && equal links a b && equal links r s
  | selfType _ a, selfType _ b => equal links a b
  | builtin _ a, builtin _ b => a == b
  | arg _ a t, arg _ b u => a == b && equal links t u
  | assign s t v p l, assign r u w q m =>
    equal links t u && equal links v w && p == q && links.current s.id l == links.current r.id m
  | ident _ a, ident _ b => a == b
  | func _ p a, func _ q b => equalDecl links p q && equalList links a b
  | call _ f a, call _ g b => equal links f g && equal links a b
  | binOp _ o a c, binOp _ p b d => o == p && equal links a b && equal links c d
  | field _ a t, field _ b u => a == b && equal links t u
  | matchOn _ a cs, matchOn _ b ds => equal links a b && equalCases links cs ds
  | whileDo _ c a, whileDo _ d b => equal links c d && equalList links a b
  | ifElse _ c a e, ifElse _ d b f => equal links c d && equalList links a b && equalList links e f
  | block _ a, block _ b => equalList links a b
  | inst _ t a, inst _ u b => equal links t u && equalList links a b
  | unknown _, unknown _ => true
  | _, _ => false
termination_by structural a => a

def equalList (links : Links) : List Node → List Node → Bool
  | [], [] => true
  | a :: as, b :: bs => equal links a b && equalList links as bs
  | _, _ => false
termination_by structural a => a

def equalDecl (links : Links) : Decl Node → Decl Node → Bool
  | ⟨_, a, t⟩, ⟨_, b, u⟩ => a == b && equal links t u
termination_by structural a => a

def equalDecls (links : Links) : List (Decl Node) → List (Decl Node) → Bool
  | [], [] => true
  | a :: as, b :: bs => equalDecl links a b && equalDecls links as bs
  | _, _ => false
termination_by structural a => a

def equalCase (links : Links) : Case Node → Case Node → Bool
  | ⟨_, p, a⟩, ⟨_, q, b⟩ => equal links p q && equalList links a b
termination_by structural a => a

def equalCases (links : Links) : List (Case Node) → List (Case Node) → Bool
  | [], [] => true
  | a :: as, b :: bs => equalCase links a b && equalCases links as bs
  | _, _ => false
termination_by structural a => a

end

end Residual.Node
