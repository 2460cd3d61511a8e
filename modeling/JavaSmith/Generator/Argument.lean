import JavaSmith.Generator.Build

/-! Types of new variables, and the arguments of a node. Each generator is given the ones it may
start, which have less left to spend, so nothing here calls itself: a step at some expression depth
is handed the step at the next one, and the method generator it may use has one method fewer to
add. -/
namespace JavaSmith

/-- Makes an expression whose value can be used where the type is required. -/
abbrev ExprGen := Site → Ty → Gen ExprId

/-- Declares a method called from the given one and writes its body. The result type is chosen if
none is given. -/
abbrev MethodGen := Site → MethodId → Option Ty → Gen MethodId

/-- Makes an argument for a parameter of the type, where null may be forbidden, if it can. -/
abbrev ArgumentGen := Ty → Bool → Gen (Option ExprId)

namespace Generator

/-- True with probability one tenth, to 53 bits. -/
def tenth : Random.Draw Bool := Random.below 1844674407370955264

def fifth : Random.Draw Bool := Random.below 3689348814741910528

def quarter : Random.Draw Bool := Random.below 4611686018427387904

/-- A type for a new variable, parameter or result. Some are restricted, since loop bounds and array
sizes can be read from such variables alone. -/
def valueType (catalog : Catalog) : Gen Ty := do
  if ← Gen.draw tenth then
    if ← Gen.draw Random.coin then
      let maxIterations ← Gen.knob .maxLoopIterations
      return .loopBound maxIterations
    else Gen.view Program.indexType
  else
    let base ← Gen.draw (Random.choose catalog.valueTypes)
    let base := base.getD (.primitive .int)
    if ← Gen.draw tenth then
      let maxDimensions ← Gen.knob .maxArrayDimensions
      let n ← Gen.draw (Random.index maxDimensions)
      return base.arrayOf (n + 1)
    else return base

/-- A literal without parameters for the type, if it has one that may stand here. -/
def directBuilder (catalog : Catalog) (t : Ty) (forbidNull : Bool) : Gen (Option Builder) :=
  Gen.draw (Random.chooseOneByOne ((catalog.ownBuilders t).filter fun b =>
    b.parameters.isEmpty && !(b.isNull && forbidNull)))

/-- An argument for a node generated at the site. A variable that fits is always preferred;
otherwise an expression is made, or at the depth limit a value without parts. -/
def argument (sub : ExprGen) (site : Site) (t : Ty) (forbidNull : Bool) : Gen (Option ExprId) := do
  let inner := site.deeper
  let inner := if forbidNull then { inner with ctx := inner.ctx.withoutNull } else inner
  match ← Gen.drawDeclared fun d => inner.scope.initializedOfType d inner.ctx t with
  | some v =>
    let e ← Gen.read v
    return some e
  | none =>
    if site.ctx.hasExprLevel then
      let e ← sub inner t
      if ← Gen.isHole e then return none else return some e
    else
      match ← directBuilder site.catalog t forbidNull with
      | some b =>
        let e ← b.build []
        return some e
      | none => return none

/-- An argument for every type, or none from the first that has no value. -/
def arguments (argument : ArgumentGen) (forbidNull : Bool) : List Ty → Gen (Option (List ExprId))
  | [] => return some []
  | t :: rest => do
    match ← argument t forbidNull with
    | none => return none
    | some e =>
      match ← arguments argument forbidNull rest with
      | none => return none
      | some es => return some (e :: es)

end Generator
end JavaSmith
