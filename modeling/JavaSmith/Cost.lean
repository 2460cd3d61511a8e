import JavaSmith.Tree

/-! Bounds on what code executes, counted in statements, calls and creations. Counts are 64-bit words
that stay at the greatest one instead of wrapping, so a bound is never too small by overflow: it is
exact or the greatest word. -/
namespace JavaSmith

namespace Cost

def limit : Nat := UInt64.size - 1

def add (a b : Nat) : Nat := min (a + b) limit

def mul (n a : Nat) : Nat := min (n * a) limit

end Cost

mutual

/-- Cost of one evaluation, where a call of a generated method counts the recorded cost of its
body. -/
def Tree.cost (d : Declarations) : Tree → Nat
  | .constant _ _ | .read _ | .hole => 0
  | .call callee args => Tree.costAll d (Tree.ownCost d callee) args
  | .send receiver callee args =>
    Tree.costAll d (Cost.add (Tree.ownCost d callee) (receiver.cost d)) args
  | .construct _ args => Tree.costAll d 1 args
  | .newArray _ sizes => Tree.costAll d 1 sizes
  | .cast _ operand => operand.cost d
  | .binary _ left right => Cost.add (left.cost d) (right.cost d)
  | .assign _ source => source.cost d

/-- Adds the costs of the trees to `total`, from left to right. -/
def Tree.costAll (d : Declarations) (total : Nat) : List Tree → Nat
  | [] => total
  | t :: rest => Tree.costAll d (Cost.add total (t.cost d)) rest

def Tree.ownCost (d : Declarations) (callee : Callee) : Nat :=
  match callee.method with
  | some m => Cost.add 1 (d.method m).cost
  | none => 1

end

namespace Program

def exprCost (p : Program) (e : ExprId) : Nat := (p.tree e).cost p.declared

/-- Most iterations that a loop with this bound can run: the greatest value of its domain, or the
knob for a bound of any other type. -/
def iterationBound (p : Program) (bound : ExprId) : Nat :=
  match p.typeOf bound with
  | .restricted r => (r.domain.max?.getD 0).toNat
  | _ => p.knobs.get .maxLoopIterations

mutual

/-- Most statements that one execution of the statement runs. Both branches of an `if` are counted;
a loop pays for its header once and for the test and the body in every iteration. -/
def statementCost (p : Program) : Statement → Nat
  | .expression e | .declare _ e | .print e | .returnValue e => Cost.add 1 (p.exprCost e)
  | .returnVoid => 1
  | .ifThen condition body => Cost.add (Cost.add 1 (p.exprCost condition)) (p.blockCost body)
  | .ifElse condition body otherwise =>
    Cost.add (Cost.add (Cost.add 1 (p.exprCost condition)) (p.blockCost body))
      (p.blockCost otherwise)
  | .loop _ _ bound body =>
    Cost.add (Cost.mul (p.iterationBound bound)
      (Cost.add (Cost.add 1 (p.exprCost bound)) (p.blockCost body))) 2

def blockCost (p : Program) : Block → Nat
  | [] => 0
  | s :: rest => Cost.add (p.statementCost s) (p.blockCost rest)

end

def recordCost (p : Program) (m : MethodId) (body : Block) : Program :=
  { p with declared := p.declared.setCost m (p.blockCost body) }

end Program
end JavaSmith
