/-! Binary operators and the groups they are drawn from. -/
namespace JavaSmith

inductive Operator where
  | add | sub | mul | div | rem
  | shl | shr | ushr | bitAnd | bitOr | bitXor
  | lt | le | gt | ge | eq | ne
  | and | or
  deriving DecidableEq, Inhabited

namespace Operator

def all : List Operator :=
  [add, sub, mul, div, rem, shl, shr, ushr, bitAnd, bitOr, bitXor, lt, le, gt, ge, eq, ne, and, or]

def arithmetic : List Operator := [add, sub, mul, div, rem]

def integral : List Operator := [shl, shr, ushr, bitAnd, bitOr, bitXor]

def comparison : List Operator := [lt, le, gt, ge, eq, ne]

def logical : List Operator := [and, or, bitAnd, bitOr, bitXor, eq, ne]

def isDivision : Operator → Bool
  | div | rem => true
  | _ => false

/-- The right operand of a shift is a distance and stays an `int`. -/
def isShift : Operator → Bool
  | shl | shr | ushr => true
  | _ => false

def isComparison (op : Operator) : Bool := comparison.contains op

def symbol : Operator → String
  | add => "+"
  | sub => "-"
  | mul => "*"
  | div => "/"
  | rem => "%"
  | shl => "<<"
  | shr => ">>"
  | ushr => ">>>"
  | bitAnd => "&"
  | bitOr => "|"
  | bitXor => "^"
  | lt => "<"
  | le => "<="
  | gt => ">"
  | ge => ">="
  | eq => "=="
  | ne => "!="
  | and => "&&"
  | or => "||"

def ofSymbol? (s : String) : Option Operator := all.find? (·.symbol == s)

def label : Operator → String
  | add => "Add"
  | sub => "Sub"
  | mul => "Mul"
  | div => "Div"
  | rem => "Rem"
  | shl => "Shl"
  | shr => "Shr"
  | ushr => "UShr"
  | bitAnd => "BitAnd"
  | bitOr => "BitOr"
  | bitXor => "BitXor"
  | lt => "Lt"
  | le => "Le"
  | gt => "Gt"
  | ge => "Ge"
  | eq => "Eq"
  | ne => "Ne"
  | and => "And"
  | or => "Or"

end Operator
end JavaSmith
