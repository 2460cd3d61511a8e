import JavaSmith.Generator.Block

/-! Methods. They are written by a third ladder of steps, one for each method that may still be added;
the entry points at the end start every ladder as high as the settings and the class allow. -/
namespace JavaSmith
namespace Generator

/-- The given result type, or one that is `void` in a quarter of the cases. -/
def resultType (catalog : Catalog) (wanted : Option Ty) : Gen Ty :=
  match wanted with
  | some t => return t
  | none => do
    if ← Gen.draw quarter then return .void else valueType catalog

def parameterTypes (catalog : Catalog) : Nat → Gen (List Ty)
  | 0 => return []
  | n + 1 => do
    let t ← valueType catalog
    let rest ← parameterTypes catalog n
    return t :: rest

/-- Parameters are locals that hold a value from the start. -/
def parameters : List Ty → Gen (List LocalId)
  | [] => return []
  | t :: rest => do
    let l ← Gen.initializedLocal .none t
    let ls ← parameters rest
    return l :: ls

/-- The end of a method: a value of its result type, or for `void` now and then an empty return. -/
def ending (expr : ExprGen) (site : Site) (returns : Ty) : Gen Block := do
  if returns.isVoid then
    if ← Gen.draw fifth then return [.returnVoid] else return []
  else
    let e ← expr site.atStatement returns
    return [.returnValue e]

/-- The statements of a method and its end, which sees what they declare. -/
def methodBody (block : BlockGen) (expr : ExprGen) (site : Site) (length : Nat) (returns : Ty) :
    Gen Block := do
  let body ← block site length
  let last ← ending expr { site with scope := body.foldl after site.scope } returns
  return body ++ last

/-- One more method. The call to it is recorded before its body exists, so that the body cannot call
back into the caller. -/
def methodStep (block : BlockGen) (expr : ExprGen) : MethodGen := fun site caller wanted => do
  let isStatic ← if site.ctx.isStatic then pure true else Gen.roll .staticProbability
  let maxParameters ← Gen.knob .maxMethodParameters
  let arity ← Gen.draw (Random.binomial maxParameters)
  let params ← parameterTypes site.catalog arity
  let returns ← resultType site.catalog wanted
  let m ← Gen.newMethod ⟨false, true, isStatic, false⟩ params returns
  Gen.addCallEdge caller m
  let locals ← parameters params
  let maxLength ← Gen.knob .maxMethodLength
  let n ← Gen.draw (length maxLength)
  let inner : Site :=
    ⟨site.catalog, site.ctx.enterMethod m isStatic site.ctx.costBudget,
     locals.foldl Scope.declare .empty⟩
  let body ← methodBody block expr inner n returns
  Gen.recordCost m body
  Gen.completeMethod ⟨m, locals, body⟩
  return m

def partsOf (newMethod : MethodGen) : Parts := ⟨expr newMethod, newMethod⟩

def methodAt : (methodsLeft : Nat) → MethodGen
  | 0 => fun _ _ _ => Gen.fail .budgetSpent
  | methodsLeft + 1 =>
    methodStep (block (partsOf (methodAt methodsLeft))) (expr (methodAt methodsLeft))

def methodsLeft : Gen Nat := Gen.view fun p =>
  p.knobs.get .maxMethods - p.declared.userMethodCount

end Generator

namespace Gen

def expr : ExprGen := fun site t => do
  let n ← Generator.methodsLeft
  Generator.expr (Generator.methodAt n) site t

def block : BlockGen := fun site length => do
  let n ← Generator.methodsLeft
  Generator.block (Generator.partsOf (Generator.methodAt n)) site length

end Gen
end JavaSmith
