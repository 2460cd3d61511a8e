import JavaSmith.Catalog
import JavaSmith.Cost
import JavaSmith.Scope
import JavaSmith.Random.Constant

/-! The state of generation, a class under construction and the rest of the random stream, and the
elementary steps on it. A step that fails keeps what was done before it. -/
namespace JavaSmith

structure Draft where
  program : Program
  stream : Random.Stream
  deriving Inhabited

abbrev Gen (α : Type) := EStateM Fault Draft α

/-- Where an expression or a statement is generated. -/
structure Site where
  catalog : Catalog
  ctx : Context
  scope : Scope
  deriving Inhabited

namespace Site

def deeper (s : Site) : Site := { s with ctx := s.ctx.deeper }

def atStatement (s : Site) : Site := { s with ctx := s.ctx.atStatement }

end Site

namespace Gen

def draw (d : Random.Draw α) : Gen α := fun s =>
  let (a, stream) := d s.stream
  .ok a { s with stream }

def drawDeclared (d : Declarations → Random.Draw α) : Gen α := fun s =>
  let (a, stream) := d s.program.declared s.stream
  .ok a { s with stream }

def view (f : Program → α) : Gen α := fun s => .ok (f s.program) s

def step (f : Program → α × Program) : Gen α := fun s =>
  let (a, program) := f s.program
  .ok a { s with program }

/-- A step on the class, unless a contract forbids it; then the class stays as it is. -/
def stepUnless (refusal : Program → Option Breach) (f : Program → α × Program) : Gen α := fun s =>
  match refusal s.program with
  | some b => .error (.breach b) s
  | none => step f s

def declaring (f : Declarations → Declarations) : Gen Unit :=
  step fun p => ((), { p with declared := f p.declared })

def fail (b : Breach) : Gen α := throw (.breach b)

def knob (k : Knob) : Gen Nat := view fun p => p.knobs.get k

def roll (k : Knob) : Gen Bool := do
  let percentage ← view fun p => p.knobs.probability k
  draw (Random.roll percentage)

def typeOf (e : ExprId) : Gen Ty := view fun p => p.typeOf e

def isHole (e : ExprId) : Gen Bool := view fun p => p.isHole e

def hole : Gen ExprId := step Program.addHole

def constant (v : Value) (t : Ty) : Gen ExprId :=
  stepUnless (fun _ => Program.constantRefusal? v t) fun p => p.addConstant v t

def read (v : Var) : Gen ExprId := step fun p => p.addRead v

def assign (v : Var) (source : ExprId) : Gen ExprId :=
  stepUnless (fun p => p.assignmentRefusal? v) fun p => p.addAssignment v source

def cast (t : Ty) (operand : ExprId) : Gen ExprId := step fun p => p.addCast t operand

def binary (op : Operator) (result : Ty) (left right : ExprId) : Gen ExprId :=
  step fun p => p.addBinary op result left right

def call (callee : Callee) (receiver : Option ExprId) (args : List ExprId) (returns : Ty) :
    Gen ExprId :=
  step fun p => p.addCall callee receiver args returns

def construct (t : Ty) (args : List ExprId) : Gen ExprId := step fun p => p.addConstruct t args

def newArray (t : Ty) (sizes : List ExprId) : Gen ExprId :=
  stepUnless (fun p => p.arrayRefusal? t sizes) fun p => p.addNewArray t sizes

def initializedLocal (modifiers : Modifiers) (t : Ty) : Gen LocalId :=
  step fun p => p.addInitializedLocal modifiers t

def counter : Gen LocalId := step Program.addCounter

def initializedField (modifiers : Modifiers) (t : Ty) (initializer : ExprId) : Gen Unit :=
  step fun p => ((), p.addInitializedField modifiers t initializer)

def newMethod (modifiers : Modifiers) (params : List Ty) (returns : Ty) : Gen MethodId :=
  step fun p => p.addMethod modifiers params returns

def addCallEdge (caller callee : MethodId) : Gen Unit := fun s =>
  match s.program.declared.addCallEdge caller callee with
  | .error b => .error (.breach b) s
  | .ok declared => declaring (fun _ => declared) s

def recordCost (m : MethodId) (body : Block) : Gen Unit :=
  step fun p => ((), p.recordCost m body)

def completeMethod (m : MethodDeclaration) : Gen Unit := step fun p => ((), p.addBody m)

end Gen
end JavaSmith
