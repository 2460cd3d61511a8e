import JavaSmith.Tree

/-! Sizes of a class, counted over everything its statements and field initializers reach. -/
namespace JavaSmith

mutual

/-- The statement itself and then those nested in it, in order of writing. -/
def Statement.visit : Statement → List Statement
  | s@(.ifThen _ body) => s :: visitBlock body
  | s@(.ifElse _ body otherwise) => s :: visitBlock body ++ visitBlock otherwise
  | s@(.loop _ _ _ body) => s :: visitBlock body
  | s => [s]

def visitBlock : List Statement → List Statement
  | [] => []
  | s :: rest => s.visit ++ visitBlock rest

end

/-- Expressions that the statement itself evaluates. -/
def Statement.roots : Statement → List ExprId
  | .expression e | .declare _ e | .print e | .returnValue e => [e]
  | .ifThen condition _ | .ifElse condition _ _ => [condition]
  | .loop _ _ bound _ => [bound]
  | .returnVoid => []

structure Stats where
  fields : Nat
  methods : Nat
  statements : Nat
  expressionNodes : Nat
  deriving DecidableEq, Inhabited

namespace Program

def statements (p : Program) : List Statement := p.methodsInOrder.flatMap fun m => visitBlock m.body

/-- All expressions that are not part of another one. -/
def roots (p : Program) : List ExprId :=
  p.fields.toList.map FieldDeclaration.initializer ++ p.statements.flatMap Statement.roots

def stats (p : Program) : Stats where
  fields := p.fields.size
  methods := p.declared.userMethodCount
  statements := p.statements.length
  expressionNodes := Tree.nodeCountAll (p.roots.map p.tree)

end Program
end JavaSmith
