import JavaSmith.Generator.Statement

/-! Control flow and blocks. Blocks nest by a second ladder of steps, one for each level of control
flow. -/
namespace JavaSmith

/-- Writes so many statements, leaving out those for which nothing could be made. -/
abbrev BlockGen := Site → Nat → Gen Block

namespace Generator

inductive Flow where
  | branch
  | loop (kind : LoopKind)
  deriving DecidableEq, Inhabited

/-- Each kind with its share. Loops have one only where every iteration can still be afforded. -/
def flowShares (knobs : Knobs) (costBudget : Nat) : List (Flow × Nat) :=
  let affordable := knobs.get .maxLoopIterations ≤ costBudget
  let share k := if affordable then knobs.get k else 0
  [(.branch, knobs.get .ifShare), (.loop .forLoop, share .forShare),
   (.loop .whileLoop, share .whileShare), (.loop .doWhileLoop, share .doWhileShare)]

/-- Nested blocks are half as long as methods at most, and have room for one statement. -/
def nestedLength : Gen Nat := do
  let limit ← Gen.knob .maxMethodLength
  Gen.draw (length (max 1 ((limit + 1) / 2)))

def branch (parts : Parts) (nested : BlockGen) : StatementGen := fun site => do
  let condition ← parts.expr site (.primitive .boolean)
  if ← Gen.isHole condition then return none
  else
    let inner := { site with ctx := site.ctx.enterBranch, scope := site.scope.enter }
    let n ← nestedLength
    let body ← nested inner n
    if ← Gen.roll .elseProbability then
      let n ← nestedLength
      let otherwise ← nested inner n
      return some [.ifElse condition body otherwise]
    else return some [.ifThen condition body]

/-- A variable or a literal whose type promises a bound from one to `maxIterations`. -/
def loopBound (site : Site) (maxIterations : Nat) : Gen ExprId := do
  let t := Ty.loopBound maxIterations
  match ← attempt true (Gen.roll .stateReuseProbability) (reuse site t) with
  | some e => return e
  | none => (Builder.literal t).build []

def loop (kind : LoopKind) (nested : BlockGen) : StatementGen := fun site => do
  let maxIterations ← Gen.knob .maxLoopIterations
  let bound ← loopBound site maxIterations
  let counter ← Gen.counter
  let n ← nestedLength
  let inner :=
    { site with
      ctx := site.ctx.enterLoop maxIterations, scope := site.scope.enter.declare counter }
  let body ← nested inner n
  return some [.loop kind counter bound body]

def controlFlow (parts : Parts) (nested : BlockGen) : StatementGen := fun site => do
  let knobs ← Gen.view Program.knobs
  match ← Gen.draw (Random.chooseByShare (flowShares knobs site.ctx.costBudget)) with
  | none => return none
  | some .branch => branch parts nested site
  | some (.loop kind) => loop kind nested site

/-- The kinds of statement in the order in which they are tried, each where the context allows it and
with a probability of its own. The first that succeeds fills the place. -/
def cascade (parts : Parts) (call : Gen (Option ExprId)) (flow : Gen (Option Block)) (site : Site) :
    List (Gen (Option Block)) :=
  [attempt true (Gen.roll .printProbability) (print parts site),
   attempt true (Gen.roll .assignmentProbability) (assignmentStatement parts site),
   attempt (site.ctx.isInMethod && site.ctx.costBudget > 0) (Gen.roll .methodCallProbability)
     (callStatement call),
   attempt true (Gen.roll .variableProbability) (localDeclaration parts site),
   attempt true (Gen.roll .fieldProbability) (fieldDeclaration parts site),
   attempt site.ctx.hasBlockLevel (Gen.roll .controlFlowProbability) flow]

def place (parts : Parts) (call : Gen (Option ExprId)) (flow : Gen (Option Block)) (site : Site) :
    Gen Block := do
  match ← firstOf (cascade parts call flow site) with
  | some statements => return statements
  | none => return []

def statement (parts : Parts) (nested : BlockGen) (site : Site) : Gen Block :=
  place parts (userCall parts.newMethod (argument parts.expr site) site none)
    (controlFlow parts nested site) site

/-- The scope after a statement: a declared local stays visible to the end of the block. -/
def after (scope : Scope) : Statement → Scope
  | .declare l _ => scope.declare l
  | _ => scope

def blockStep (parts : Parts) (nested : BlockGen) : Site → Nat → Gen Block
  | _, 0 => return []
  | site, n + 1 => do
    let first ← statement parts nested site.atStatement
    let rest ← blockStep parts nested { site with scope := first.foldl after site.scope } n
    return first ++ rest

/-- Blocks with the given number of levels of control flow below them. -/
def blockAt (parts : Parts) : (levels : Nat) → BlockGen
  | 0 => blockStep parts fun _ _ => Gen.fail .budgetSpent
  | levels + 1 => blockStep parts (blockAt parts levels)

def block (parts : Parts) : BlockGen := fun site => blockAt parts site.ctx.blockLevels site

end Generator
end JavaSmith
