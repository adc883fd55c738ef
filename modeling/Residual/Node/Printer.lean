/-
Nodes as source-like text. Parentheses stand where a reader would otherwise see another tree:
around operands that bind less tightly than their operator, around callees and templates that are
not atomic, and around a function type on the left of an arrow.
-/
import Residual.Node.Basic
import Residual.Number.Shortest
import Residual.Text.Quoted
import Residual.Doc

namespace Residual

/-- How text is laid out: by how much nested lines are moved, and the width to fit into. -/
structure Layout where
  indent : Int
  width : Nat
  deriving Repr, DecidableEq, Inhabited

def Layout.standard : Layout := ⟨2, 80⟩

/-- A width in which nothing has to be broken. -/
def Doc.unbroken : Nat := 1048576

open Doc (word line concat separated)

/-! ## Parts -/

/-- Items between braces, each on its own line unless all fit on one. -/
def Doc.braced (indent : Int) (sep : String) (items : List Doc) : Doc :=
  if items.isEmpty then word "\x7b\x7d"
  else
    Doc.grouped <| concat [
      word "\x7b",
      Doc.indented indent (line ++ separated (word sep ++ line) items),
      line,
      word "\x7d"]

/-- The document of a body: one node alone stands bare. -/
def Doc.body (indent : Int) : List Doc → Doc
  | [single] => single
  | items => Doc.braced indent ";" items

def Doc.parens (d : Doc) : Doc := concat [word "(", d, word ")"]

def Doc.parensIf (condition : Bool) (d : Doc) : Doc := if condition then d.parens else d

def Literal.text : Literal → String
  | .bool b => if b then "true" else "false"
  | .number x => Number.text x
  | .string s => Text.quoted s

def Range.text (r : Range) : String := "[" ++ Number.text r.lo ++ ".." ++ Number.text r.hi ++ "]"

namespace Node

/-- Nodes that stand as operand, callee or template without parentheses. -/
def isAtomic : Node → Bool
  | lit .. | list .. | record .. | enum .. | selfType .. | builtin .. | ident .. | call ..
  | block .. | inst .. | unknown .. => true
  | binOp _ op _ _ => op == .dot
  | fnType .. | arg .. | assign .. | func .. | field .. | matchOn .. | whileDo .. | ifElse .. =>
    false

/-- Whether a node needs parentheses as an operand where operators of precedence `least` stand
without them. -/
def needsParens (least : Nat) : Node → Bool
  | binOp _ op _ _ => op.precedence < least
  | n => !n.isAtomic

/-! ## Documents -/

mutual

/-- The document of a node; `k` is the indent of nested lines. -/
def doc (k : Int) : Node → Doc
  | lit _ value => word value.text
  | list _ items =>
    Doc.grouped <| concat [
      word "[", Doc.indented k (separated (word "," ++ line) (docs k items)), word "]"]
  | record _ _ fields range =>
    let head := match range with
      | some r => "struct" ++ r.text
      | none => "struct"
    concat [word head, word " ", Doc.braced k "," (fieldDocs k fields)]
  | enum _ _ members => concat [word "enum", word " ", Doc.braced k "," (members.map word)]
  | fnType _ _ dom cod =>
    concat [Doc.parensIf (!dom.isAtomic) (doc k dom), word " -> ", doc k cod]
  | selfType _ ty => concat [word "self", (doc k ty).parens]
  | builtin _ b => word b.name
  | arg _ name ty => concat [word name, (doc k ty).parens]
  | assign _ target value _ _ => concat [doc k target, word " = ", doc k value]
  | ident _ name => word name
  | func _ param body =>
    concat [word "@", paramDoc k param, word " ", Doc.body k (docs k body)]
  | call _ f a => concat [Doc.parensIf (!f.isAtomic) (doc k f), (doc k a).parens]
  | binOp _ op lhs rhs =>
    let left := Doc.parensIf (lhs.needsParens op.precedence) (doc k lhs)
    if op = .dot then concat [left, word ".", Doc.parensIf (!rhs.isAtomic) (doc k rhs)]
    else
      concat [left, word (" " ++ op.symbol ++ " "),
        Doc.parensIf (rhs.needsParens (op.precedence + 1)) (doc k rhs)]
  | field _ name ty => concat [word name, word ": ", doc k ty]
  | matchOn _ scrutinee cases =>
    concat [word "match ", doc k scrutinee, word " ", Doc.braced k "," (caseDocs k cases)]
  | whileDo _ condition body =>
    concat [word "while ", doc k condition, word " ", Doc.braced k ";" (docs k body)]
  | ifElse _ condition thenBody elseBody =>
    Doc.grouped <| concat [
      word "if ", doc k condition, word " then",
      Doc.indented k (line ++ Doc.body k (docs k thenBody)),
      line, word "else",
      Doc.indented k (line ++ Doc.body k (docs k elseBody))]
  | block _ items => Doc.braced k ";" (docs k items)
  | inst _ template body =>
    concat [Doc.parensIf (!template.isAtomic) (doc k template), word " ",
      Doc.braced k "," (docs k body)]
  | unknown _ => word "?"

def docs (k : Int) : List Node → List Doc
  | [] => []
  | n :: ns => doc k n :: docs k ns

/-- A declaration as a parameter, `x(T)`. -/
def paramDoc (k : Int) : Decl Node → Doc
  | ⟨_, name, ty⟩ => concat [word name, (doc k ty).parens]

/-- A declaration as a field, `x: T`. -/
def fieldDoc (k : Int) : Decl Node → Doc
  | ⟨_, name, ty⟩ => concat [word name, word ": ", doc k ty]

def fieldDocs (k : Int) : List (Decl Node) → List Doc
  | [] => []
  | d :: ds => fieldDoc k d :: fieldDocs k ds

def caseDoc (k : Int) : Case Node → Doc
  | ⟨_, pattern, body⟩ => concat [doc k pattern, word " => ", Doc.body k (docs k body)]

def caseDocs (k : Int) : List (Case Node) → List Doc
  | [] => []
  | c :: cs => caseDoc k c :: caseDocs k cs

end

end Node

/-! ## Text -/

namespace Layout

/-- A node on one line. -/
def inline (layout : Layout) (n : Node) : String := (n.doc layout.indent).render Doc.unbroken

/-- A node in the width of the layout. -/
def print (layout : Layout) (n : Node) : String := (n.doc layout.indent).render layout.width

end Layout

end Residual
