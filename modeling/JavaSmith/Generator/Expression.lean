import JavaSmith.Generator.Call
import JavaSmith.Generator.Operation

/-! Expressions. Before the builders of a type are tried, a variable, a call, an assignment, an
operator and a cast each get a chance. Where no value of a type can be made, the result is an
expression without value, which no caller puts into the class. -/
namespace JavaSmith
namespace Generator

def valued (e : ExprId) : Gen (Option ExprId) := do
  if ← Gen.isHole e then return none else return some e

def firstOf : List (Gen (Option α)) → Gen (Option α)
  | [] => return none
  | attempt :: rest => do
    match ← attempt with
    | some a => return some a
    | none => firstOf rest

def attempt (allowed : Bool) (roll : Gen Bool) (make : Gen (Option α)) : Gen (Option α) := do
  if ← (if allowed then roll else pure false) then make else return none

/-- The first builder whose parameters can all be satisfied, with the arguments. -/
def firstSatisfied (argument : ArgumentGen) : List Builder → Gen (Option (Builder × List ExprId))
  | [] => return none
  | b :: rest => do
    match ← arguments argument b.refusesNull b.parameters with
    | some args => return some (b, args)
    | none => firstSatisfied argument rest

def candidates (site : Site) (t : Ty) (allowExternal : Bool) : List Builder :=
  (site.catalog.allBuilders t).filter fun b =>
    !(b.isNull && site.ctx.forbidsNull) && (allowExternal || !b.isExternal)

def fromBuilders (argument : ArgumentGen) (site : Site) (t : Ty) : Gen ExprId := do
  let allowExternal ← Gen.roll .externalCallProbability
  let shuffled ← Gen.draw (Random.shuffle (candidates site t allowExternal))
  match ← firstSatisfied argument shuffled with
  | none => Gen.hole
  | some (b, args) =>
    if t.accepts b.result then b.build args else Gen.fail (.product t b.result)

/-- Writes another value to a variable of a fitting type and takes its value. -/
def assignment (sub : ExprGen) (site : Site) (t : Ty) : Gen (Option ExprId) := do
  match ← Gen.drawDeclared fun d => site.scope.writableOfType d site.ctx t with
  | none => return none
  | some v =>
    let target ← Gen.view fun p => p.declared.typeOf v
    let source ← sub site.deeper target
    if ← Gen.isHole source then return none
    else
      let e ← Gen.assign v source
      return some e

def reuse (site : Site) (t : Ty) : Gen (Option ExprId) := do
  match ← Gen.drawDeclared fun d => site.scope.initializedOfType d site.ctx t with
  | none => return none
  | some v =>
    let e ← Gen.read v
    return some e

/-- Assignments occur in expressions a quarter as often as in statements. -/
def rollAssignment : Gen Bool := do
  let percentage ← Gen.view fun p => p.knobs.probability .assignmentProbability
  Gen.draw (Random.roll (percentage / 4))

def isNumericPrimitive : Ty → Bool
  | .primitive k => k.isNumeric
  | _ => false

/-- What is tried before the builders, the last four only above the depth limit. Neither a call nor
an assignment may stand where null is forbidden but possible. -/
def attempts (call : Gen (Option ExprId)) (operator cast : Gen ExprId) (sub : ExprGen) (site : Site)
    (t : Ty) : List (Gen (Option ExprId)) :=
  let nullForbidden := site.ctx.forbidsNull && t.isNullable
  attempt true (Gen.roll .stateReuseProbability) (reuse site t) ::
  if site.ctx.hasExprLevel then
    [attempt (site.ctx.isInMethod && !nullForbidden) (Gen.roll .methodCallProbability) call,
     attempt (!nullForbidden) rollAssignment (assignment sub site t),
     attempt (isOperatorResult t) (Gen.roll .binaryOpProbability) (do
       let e ← operator
       valued e),
     attempt (isNumericPrimitive t) (Gen.roll .castProbability) (do
       let e ← cast
       valued e)]
  else []

/-- An expression, from whatever succeeds first. There is none of type `void`. -/
def choice (call : Gen (Option ExprId)) (operator cast builders : Gen ExprId) (sub : ExprGen)
    (site : Site) (t : Ty) : Gen ExprId := do
  if t.isVoid then Gen.hole
  else
    match ← firstOf (attempts call operator cast sub site t) with
    | some e => return e
    | none => builders

def exprStep (newMethod : MethodGen) (sub : ExprGen) (site : Site) (t : Ty) : Gen ExprId :=
  choice (userCall newMethod (argument sub site) site (some t)) (binaryOp sub site t)
    (castFrom sub site t) (fromBuilders (argument sub site) site t) sub site t

def exprAt (newMethod : MethodGen) : (levels : Nat) → ExprGen
  | 0 => exprStep newMethod fun _ _ => Gen.fail .budgetSpent
  | levels + 1 => exprStep newMethod (exprAt newMethod levels)

def expr (newMethod : MethodGen) : ExprGen := fun site =>
  exprAt newMethod site.ctx.exprLevels site

end Generator
end JavaSmith
