import JavaSmith.Generator.Expression

/-! Statements without blocks of their own: printing, assignments, calls and declarations. -/
namespace JavaSmith

/-- Fills a place in a block, or declines. A place can be filled with no statement, since fields are
declared elsewhere. -/
abbrev StatementGen := Site → Gen (Option Block)

namespace Generator

structure Parts where
  expr : ExprGen
  newMethod : MethodGen

/-- Uniform between one and a limit; zero, with nothing drawn, for a limit of zero. -/
def length (limit : Nat) : Random.Draw Nat :=
  if limit = 0 then return 0
  else do
    let n ← Random.index limit
    return n + 1

def printableType (catalog : Catalog) : Gen Ty := do
  let t ← Gen.draw (Random.chooseOneByOne (catalog.valueTypes.filter Ty.isPrintable))
  return t.getD (.primitive .int)

def print (parts : Parts) : StatementGen := fun site => do
  let t ← printableType site.catalog
  let e ← parts.expr site t
  if ← Gen.isHole e then return none else return some [.print e]

def assignmentStatement (parts : Parts) : StatementGen := fun site => do
  match ← Gen.drawDeclared fun d => site.scope.writable d site.ctx with
  | none => return none
  | some v =>
    let t ← Gen.view fun p => p.declared.typeOf v
    let source ← parts.expr site t
    if ← Gen.isHole source then return none
    else
      let e ← Gen.assign v source
      return some [.expression e]

def callStatement (call : Gen (Option ExprId)) : Gen (Option Block) := do
  match ← call with
  | none => return none
  | some e => return some [.expression e]

/-- The local is declared after its value is made, so the value does not read it. -/
def localDeclaration (parts : Parts) : StatementGen := fun site => do
  let t ← valueType site.catalog
  let e ← parts.expr site t
  if ← Gen.isHole e then return none
  else
    let isFinal ← Gen.roll .finalProbability
    let l ← Gen.initializedLocal { Modifiers.none with isFinal } t
    return some [.declare l e]

/-- A field whose value is made from fields alone. Nothing is added to the block. -/
def fieldDeclaration (parts : Parts) : StatementGen := fun site => do
  let isStatic ← if site.ctx.isStatic then pure true else Gen.roll .staticProbability
  let isFinal ← Gen.roll .finalProbability
  let t ← valueType site.catalog
  let e ← parts.expr ⟨site.catalog, site.ctx.enterInitializer isStatic, .empty⟩ t
  if ← Gen.isHole e then return none
  else
    Gen.initializedField ⟨false, true, isStatic, isFinal⟩ t e
    return some []

end Generator
end JavaSmith
