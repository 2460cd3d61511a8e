import JavaSmith.Ty.Assign

/-! Constants. Floats are kept as their bit patterns, so that a value is exactly what is written:
signed zeros stay apart and no pattern is ever rounded. -/
namespace JavaSmith

inductive Value where
  | boolean (b : Bool)
  | byte (n : Int8)
  | short (n : Int16)
  | char (unit : UInt16)
  | int (n : Int32)
  | long (n : Int64)
  | float (bits : UInt32)
  | double (bits : UInt64)
  | string (s : String)
  | null
  deriving DecidableEq, Inhabited

namespace Value

def kind? : Value → Option Kind
  | boolean _ => some .boolean
  | byte _ => some .byte
  | short _ => some .short
  | char _ => some .char
  | int _ => some .int
  | long _ => some .long
  | float _ => some .float
  | double _ => some .double
  | string _ | null => none

def toInt? : Value → Option Int
  | byte n => some n.toInt
  | short n => some n.toInt
  | char unit => some unit.toNat
  | int n => some n.toInt
  | long n => some n.toInt
  | _ => none

/-- The number as a value of the kind, if the kind holds it. -/
def integer? (kind : Kind) (n : Int) : Option Value :=
  match kind.bounds? with
  | none => none
  | some (lo, hi) =>
    if n < lo ∨ hi < n then none
    else match kind with
      | .byte => some (byte (Int8.ofInt n))
      | .short => some (short (Int16.ofInt n))
      | .char => some (char (UInt16.ofNat n.toNat))
      | .int => some (int (Int32.ofInt n))
      | _ => some (long (Int64.ofInt n))

/-- Whether a literal of the value has exactly the type. -/
def fits (v : Value) (t : Ty) : Bool :=
  match v, t with
  | null, t => t.isNullable
  | string _, .string => true
  | v, .primitive k => v.kind? == some k
  | v, .restricted r => v.kind? == some r.base && v.toInt?.any r.domain.holds
  | _, _ => false

end Value
end JavaSmith
