/-! The primitive kinds and the conversions between them. Widening is the order the rest of the
type system is built on: a value may move to a wider kind and never loses information the kind
promises to hold, so `char` and `short` stay apart although both have sixteen bits. -/
namespace JavaSmith

inductive Kind where
  | boolean | byte | short | char | int | long | float | double
  deriving DecidableEq, Inhabited

namespace Kind

def all : List Kind := [boolean, byte, short, char, int, long, float, double]

theorem mem_all (k : Kind) : k ∈ all := by cases k <;> simp [all]

def keyword : Kind → String
  | boolean => "boolean"
  | byte => "byte"
  | short => "short"
  | char => "char"
  | int => "int"
  | long => "long"
  | float => "float"
  | double => "double"

def boxedName : Kind → String
  | boolean => "Boolean"
  | byte => "Byte"
  | short => "Short"
  | char => "Character"
  | int => "Integer"
  | long => "Long"
  | float => "Float"
  | double => "Double"

def isNumeric : Kind → Bool
  | boolean => false
  | _ => true

/-- Least and greatest value of the kinds that hold integers. -/
def bounds? : Kind → Option (Int × Int)
  | byte => some (-128, 127)
  | short => some (-32768, 32767)
  | char => some (0, 65535)
  | int => some (-2147483648, 2147483647)
  | long => some (-9223372036854775808, 9223372036854775807)
  | boolean | float | double => none

def isIntegral (k : Kind) : Bool := k.bounds?.isSome

def rank : Kind → Nat
  | boolean => 0
  | byte => 1
  | short => 2
  | char => 3
  | int => 4
  | long => 5
  | float => 6
  | double => 7

/-- `wide.isWideningOf narrow` says that a value of kind `narrow` may stand where `wide` is wanted:
identity, or a widening conversion. Nothing but `char` itself widens to `char`. -/
def isWideningOf (wide narrow : Kind) : Bool :=
  wide == narrow ||
  match narrow, wide with
  | byte, short | byte, int | byte, long | byte, float | byte, double => true
  | short, int | short, long | short, float | short, double => true
  | char, int | char, long | char, float | char, double => true
  | int, long | int, float | int, double => true
  | long, float | long, double => true
  | float, double => true
  | _, _ => false

theorem isWideningOf_refl (k : Kind) : k.isWideningOf k = true := by cases k <;> rfl

theorem isWideningOf_trans {a b c : Kind} (h : a.isWideningOf b = true)
    (h' : b.isWideningOf c = true) : a.isWideningOf c = true := by
  revert h h'
  cases a <;> cases b <;> cases c <;> decide

/-- The kind in which an operator is computed on operands of these two kinds. -/
def promote (a b : Kind) : Kind :=
  if a = double ∨ b = double then double
  else if a = float ∨ b = float then float
  else if a = long ∨ b = long then long
  else int

end Kind
end JavaSmith
