import JavaSmith.Generator.Argument

/-! Operators and casts on expressions of chosen types. Operands are cast so that an operator is
evaluated in the kind its node is typed with. -/
namespace JavaSmith
namespace Generator

/-- An operator with the kind its operands are computed in, none for texts, and the type asked of its
right operand. -/
structure OperatorUse where
  op : Operator
  kind? : Option Kind
  right : Ty
  deriving Inhabited

/-- Results of these types can come from an operator. -/
def isOperatorResult : Ty → Bool
  | .primitive _ | .string => true
  | _ => false

/-- The kind in which a result of the kind is computed: narrow integers are computed as `int`. -/
def computedKind : Kind → Kind
  | .long => .long
  | .float => .float
  | .double => .double
  | _ => .int

def booleanOperation : Random.Draw OperatorUse := do
  if ← Random.coin then
    let op ← Random.choose Operator.comparison
    let kind ← Random.choose [Kind.int, .long, .double]
    let kind := kind.getD .int
    return ⟨op.getD .lt, some kind, .primitive kind⟩
  else
    let op ← Random.choose Operator.logical
    return ⟨op.getD .and, some .boolean, .primitive .boolean⟩

/-- Type asked of the right operand. Integers must not be divided by zero unless that is allowed. -/
def rightType (op : Operator) (kind : Kind) (allowDivideByZero : Bool) : Ty :=
  if op.isDivision && kind.isIntegral && !allowDivideByZero then .nonzeroInt
  else if op.isShift then .primitive .int
  else .primitive kind

def numericOperation (kind : Kind) (allowDivideByZero : Bool) : Random.Draw OperatorUse := do
  let ops := Operator.arithmetic ++ if kind.isIntegral then Operator.integral else []
  let op ← Random.choose ops
  let op := op.getD .add
  return ⟨op, some kind, rightType op kind allowDivideByZero⟩

def operationFor (t : Ty) (allowDivideByZero : Bool) : Random.Draw (Option OperatorUse) :=
  match t with
  | .string => return some ⟨.add, none, .string⟩
  | .primitive .boolean => do
    let use ← booleanOperation
    return some use
  | .primitive k => do
    let use ← numericOperation (computedKind k) allowDivideByZero
    return some use
  | _ => return none

/-- Type to which a value of type `t` is cast to be of the kind. Integers keep their domain. -/
def coercedType (t : Ty) (kind : Kind) : Ty :=
  match t with
  | .restricted r =>
    if kind.isIntegral then (Ty.restrictedTo? kind r.domain).getD (.primitive kind)
    else .primitive kind
  | _ => .primitive kind

/-- Casts the expression to the kind unless it is of that kind, so that the operator is evaluated in
the kind its node is typed with. -/
def coerce (e : ExprId) (kind : Kind) : Gen ExprId := do
  let t ← Gen.typeOf e
  if t.kind? == some kind then return e else Gen.cast (coercedType t kind) e

/-- Shift distances stay `int` whatever the shifted kind. -/
def coerceOperands (use : OperatorUse) (left right : ExprId) : Gen (ExprId × ExprId) := do
  match use.kind? with
  | none => return (left, right)
  | some kind =>
    let left ← coerce left kind
    let right ← coerce right (if use.op.isShift then .int else kind)
    return (left, right)

def OperatorUse.resultType (use : OperatorUse) : Ty :=
  match use.kind? with
  | none => .string
  | some kind => if use.op.isComparison then .primitive .boolean else .primitive kind

def OperatorUse.leftType (use : OperatorUse) : Ty :=
  match use.kind? with
  | none => .string
  | some kind => .primitive kind

/-- Whether the operator throws on a zero and must not. -/
def OperatorUse.isGuarded (use : OperatorUse) (allowDivideByZero : Bool) : Bool :=
  use.op.isDivision && use.kind?.any Kind.isIntegral && !allowDivideByZero

/-- The operator on operands that have values; a result wider than wanted is cast back. -/
def applyOperator (site : Site) (use : OperatorUse) (t : Ty) (left right : ExprId) :
    Gen ExprId := do
  let (left, right) ← coerceOperands use left right
  let divisor ← Gen.typeOf right
  if use.isGuarded site.ctx.allowDivideByZero && !divisor.excludesZero then
    Gen.fail (.divisor divisor)
  else
    let e ← Gen.binary use.op use.resultType left right
    if t.accepts use.resultType then return e else Gen.cast t e

def binaryOp (sub : ExprGen) (site : Site) (t : Ty) : Gen ExprId := do
  match ← Gen.draw (operationFor t site.ctx.allowDivideByZero) with
  | none => Gen.hole
  | some use =>
    let left ← sub site.deeper use.leftType
    let right ← sub site.deeper use.right
    let leftHole ← Gen.isHole left
    let rightHole ← Gen.isHole right
    if leftHole || rightHole then Gen.hole else applyOperator site use t left right

def castFrom (sub : ExprGen) (site : Site) (t : Ty) : Gen ExprId := do
  let source ← Gen.draw (Random.chooseOneByOne (Kind.all.filter Kind.isNumeric))
  let operand ← sub site.deeper (.primitive (source.getD .int))
  if ← Gen.isHole operand then return operand else Gen.cast t operand

end Generator
end JavaSmith
