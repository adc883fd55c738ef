/-
Literals, the built-in types, and the operators with what they do to two numbers.
-/
import Residual.Number.Remainder

namespace Residual

/-! ## Built-in types -/

inductive Builtin where
  | bool
  | number
  | string
  | list
  | type
  | function
  | any
  deriving Repr, DecidableEq, Inhabited

namespace Builtin

def all : List Builtin := [.bool, .number, .string, .list, .type, .function, .any]

def name : Builtin → String
  | .bool => "Bool"
  | .number => "Number"
  | .string => "String"
  | .list => "List"
  | .type => "Type"
  | .function => "Function"
  | .any => "Any"

def ofName? (name : String) : Option Builtin := all.find? (·.name == name)

theorem name_injective {a b : Builtin} (h : a.name = b.name) : a = b := by
  cases a <;> cases b <;> first | rfl | (revert h; decide)

end Builtin

/-! ## Literals -/

inductive Literal where
  | bool (value : Bool)
  | number (value : Float)
  | string (value : String)
  deriving Repr, BEq, Inhabited

/-- The type of a literal. -/
def Literal.builtin : Literal → Builtin
  | .bool _ => .bool
  | .number _ => .number
  | .string _ => .string

/-! ## Operators -/

/-- The binary operators; `dot` takes a field, named on its right, out of an instance. -/
inductive Operator where
  | add
  | sub
  | mul
  | div
  | rem
  | eq
  | ne
  | lt
  | le
  | gt
  | ge
  | dot
  deriving Repr, DecidableEq, Inhabited

namespace Operator

def all : List Operator := [.add, .sub, .mul, .div, .rem, .eq, .ne, .lt, .le, .gt, .ge, .dot]

def symbol : Operator → String
  | .add => "+"
  | .sub => "-"
  | .mul => "*"
  | .div => "/"
  | .rem => "%"
  | .eq => "=="
  | .ne => "!="
  | .lt => "<"
  | .le => "<="
  | .gt => ">"
  | .ge => ">="
  | .dot => "."

def ofSymbol? (symbol : String) : Option Operator := all.find? (·.symbol == symbol)

/-- How tightly an operator binds. -/
def precedence : Operator → Nat
  | .eq | .ne => 1
  | .lt | .le | .gt | .ge => 2
  | .add | .sub => 3
  | .mul | .div | .rem => 4
  | .dot => 5

def isArithmetic : Operator → Bool
  | .add | .sub | .mul | .div | .rem => true
  | _ => false

/-- The value of an operator at two numbers; taking a field has none. -/
def fold (op : Operator) (a b : Float) : Option Literal :=
  match op with
  | .add => some (.number (a + b))
  | .sub => some (.number (a - b))
  | .mul => some (.number (a * b))
  | .div => some (.number (a / b))
  | .rem => some (.number (Number.remainder a b))
  | .eq => some (.bool (a == b))
  | .ne => some (.bool (a != b))
  | .lt => some (.bool (a < b))
  | .le => some (.bool (a ≤ b))
  | .gt => some (.bool (b < a))
  | .ge => some (.bool (b ≤ a))
  | .dot => none

end Operator

end Residual
