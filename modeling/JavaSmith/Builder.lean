import JavaSmith.Library
import JavaSmith.Ty.Assign

/-! Ways of making a value of a type out of values of other types. -/
namespace JavaSmith

/-- A library operation admitted for calls from generated code, its types resolved. -/
structure Operation where
  declaring : Ty
  name : String
  isStatic : Bool
  returns : Ty
  params : List Ty
  risk : Library.Risk
  deriving Inhabited

namespace Operation

def parameters (op : Operation) : List Ty :=
  if op.isStatic then op.params else op.declaring :: op.params

def isAllowed (op : Operation) (allowOverflow allowDivideByZero : Bool) : Bool :=
  match op.risk with
  | .safe => true
  | .overflow => allowOverflow
  | .divideByZero => allowDivideByZero

end Operation

inductive Builder where
  | null (t : Ty)
  | literal (t : Ty)
  | boxing (kind : Kind)
  | construct (t : Ty) (params : List Ty)
  | newArray (t : Ty) (index : Ty)
  | external (op : Operation)
  deriving Inhabited

namespace Builder

def parameters : Builder → List Ty
  | null _ | literal _ => []
  | boxing k => [.primitive k]
  | construct _ params => params
  | newArray t index => List.replicate t.dimensions index
  | external op => op.parameters

def result : Builder → Ty
  | null t | literal t | construct t _ | newArray t _ => t
  | boxing k => .boxed k
  | external op => op.returns

/-- Whether a null argument would throw. -/
def refusesNull : Builder → Bool
  | construct _ _ | external _ => true
  | _ => false

def isExternal : Builder → Bool
  | external _ => true
  | _ => false

def isNull : Builder → Bool
  | null _ => true
  | _ => false

end Builder
end JavaSmith
