import JavaSmith.CallGraph
import JavaSmith.Knob

/-! Where generation stands: the method being written, how deep statements and expressions are
nested, and what may still be spent. -/
namespace JavaSmith

/-- Bound on the statements one run of the entry method may execute. -/
def runBudget : Nat := 1048576

structure Context where
  /-- None in a field initializer, where no method is called. -/
  method : Option MethodId
  isStatic : Bool
  controlFlowDepth : Nat
  maxControlFlowDepth : Nat
  exprDepth : Nat
  maxExprDepth : Nat
  /-- Set for receivers and arguments of library calls, which must not see null. -/
  forbidsNull : Bool
  /-- Statements the code being written may still execute in one call of its method. -/
  costBudget : Nat
  allowDivideByZero : Bool
  deriving DecidableEq, Inhabited

namespace Context

def new : Context := ⟨none, false, 0, 0, 0, 0, false, runBudget, false⟩

def ofKnobs (knobs : Knobs) : Context :=
  { new with
    maxControlFlowDepth := knobs.get .maxControlFlowDepth
    maxExprDepth := knobs.get .maxExpressionDepth
    allowDivideByZero := knobs.flag .allowDivideByZero }

def enterMethod (c : Context) (method : MethodId) (isStatic : Bool) (costBudget : Nat) : Context :=
  { c with
    method := some method, isStatic, controlFlowDepth := 0, exprDepth := 0,
    forbidsNull := false, costBudget }

def enterInitializer (c : Context) (isStatic : Bool) : Context :=
  { c with
    method := none, isStatic, controlFlowDepth := 0, exprDepth := 0, forbidsNull := false }

def hasExprLevel (c : Context) : Bool := c.exprDepth < c.maxExprDepth

def hasBlockLevel (c : Context) : Bool := c.controlFlowDepth < c.maxControlFlowDepth

def isInMethod (c : Context) : Bool := c.method.isSome

def exprLevels (c : Context) : Nat := c.maxExprDepth - c.exprDepth

def blockLevels (c : Context) : Nat := c.maxControlFlowDepth - c.controlFlowDepth

/-- An operand, one expression level down; null is allowed there again. -/
def deeper (c : Context) : Context :=
  { c with exprDepth := c.exprDepth + 1, forbidsNull := false }

/-- The body of a loop runs up to `iterations` times, so it gets that share of the budget. -/
def enterLoop (c : Context) (iterations : Nat) : Context :=
  { c with
    controlFlowDepth := c.controlFlowDepth + 1, costBudget := c.costBudget / max iterations 1 }

def enterBranch (c : Context) : Context := { c with controlFlowDepth := c.controlFlowDepth + 1 }

def withoutNull (c : Context) : Context := { c with forbidsNull := true }

def atStatement (c : Context) : Context := { c with exprDepth := 0, forbidsNull := false }

theorem exprLevels_deeper (c : Context) : c.deeper.exprLevels = c.exprLevels - 1 := by
  simp [exprLevels, deeper]; omega

end Context
end JavaSmith
