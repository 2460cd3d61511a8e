import JavaSmith.Declarations
import JavaSmith.Operator

/-! A class and its expressions. Expressions live in an arena: a node refers to its operands by their
numbers, which are smaller than its own, and once added it stays as it is. Statements hold numbers
of expressions. Constants, arrays and assignments promise something of their parts; whoever adds one
asks first whether it is refused. -/
namespace JavaSmith

/-- Expressions are numbered as they are added. Numbers have no bound; those below `2 ^ 32` are what 32-bit
words would be. -/
abbrev ExprId := Nat

/-- What is called. A call into the class library through a class names that class; a call of a
generated method names the method. -/
structure Callee where
  isStatic : Bool
  owner : Option Ty
  name : String
  method : Option MethodId
  deriving Inhabited

inductive Node where
  | constant (v : Value)
  | read (v : Var)
  | call (callee : Callee) (receiver : Option ExprId) (args : List ExprId)
  | construct (t : Ty) (args : List ExprId)
  /-- One size for each dimension. -/
  | newArray (t : Ty) (sizes : List ExprId)
  | cast (t : Ty) (operand : ExprId)
  | binary (op : Operator) (left right : ExprId)
  | assign (v : Var) (source : ExprId)
  /-- No value could be made. -/
  | hole
  deriving Inhabited

inductive LoopKind where
  | forLoop | whileLoop | doWhileLoop
  deriving DecidableEq, Inhabited

/-- Loops count from zero up to a bound that is evaluated before every test. -/
inductive Statement where
  | expression (e : ExprId)
  | declare (l : LocalId) (e : ExprId)
  | print (e : ExprId)
  | ifThen (condition : ExprId) (body : List Statement)
  | ifElse (condition : ExprId) (body otherwise : List Statement)
  | loop (kind : LoopKind) (counter : LocalId) (bound : ExprId) (body : List Statement)
  | returnVoid
  | returnValue (e : ExprId)
  deriving Inhabited

abbrev Block := List Statement

def Statement.isReturn : Statement → Bool
  | returnVoid | returnValue _ => true
  | _ => false

def Block.endsInReturn (b : Block) : Bool := b.getLast?.any Statement.isReturn

structure FieldDeclaration where
  field : FieldId
  initializer : ExprId
  deriving Inhabited

structure MethodDeclaration where
  method : MethodId
  params : List LocalId
  body : Block
  deriving Inhabited

structure TypedNode where
  node : Node
  type : Ty
  deriving Inhabited

structure Program where
  className : String
  seed : UInt64
  knobs : Knobs
  declared : Declarations
  fields : Array FieldDeclaration
  methods : Array MethodDeclaration
  entry : MethodDeclaration
  arena : Array TypedNode
  deriving Inhabited

namespace Program

def entryId : MethodId := 0

def new (className : String) (seed : UInt64) (knobs : Knobs) : Program :=
  { className, seed, knobs, declared := Declarations.empty.addEntry, fields := #[], methods := #[],
    entry := ⟨entryId, [], []⟩, arena := #[] }

def node (p : Program) (e : ExprId) : Node := (p.arena[e]?.map TypedNode.node).getD .hole

def typeOf (p : Program) (e : ExprId) : Ty := (p.arena[e]?.map TypedNode.type).getD .void

def exprCount (p : Program) : Nat := p.arena.size

def isHole (p : Program) (e : ExprId) : Bool :=
  match p.node e with
  | .hole => true
  | _ => false

def indexType (p : Program) : Ty := .arraySize (p.knobs.get .maxArrayDimensionSize)

/-- Generated methods in the order in which they were completed, then the entry. -/
def methodsInOrder (p : Program) : List MethodDeclaration := p.methods.toList ++ [p.entry]

/-- The node gets the next number, which a 32-bit word would hold in an arena of fewer than `2 ^ 32` nodes
and cut off in any other. -/
def add (p : Program) (node : Node) (type : Ty) : ExprId × Program :=
  (p.arena.size, { p with arena := p.arena.push ⟨node, type⟩ })

def addHole (p : Program) : ExprId × Program := p.add .hole .void

def constantRefusal? (v : Value) (t : Ty) : Option Breach :=
  if v.fits t then none else some (.misfit v t)

def addConstant (p : Program) (v : Value) (t : Ty) : ExprId × Program := p.add (.constant v) t

def addRead (p : Program) (v : Var) : ExprId × Program := p.add (.read v) (p.declared.typeOf v)

/-- Why an array of the type cannot have these sizes: one for each dimension, at least one, and each
a valid index. -/
def arrayRefusal? (p : Program) (t : Ty) (sizes : List ExprId) : Option Breach :=
  if sizes.length ≠ t.dimensions ∨ sizes = [] then some (.sizeCount sizes.length t)
  else (sizes.find? fun e => !p.indexType.accepts (p.typeOf e)).map fun e => .sizeType (p.typeOf e)

def addNewArray (p : Program) (t : Ty) (sizes : List ExprId) : ExprId × Program :=
  p.add (.newArray t sizes) t

def assignmentRefusal? (p : Program) (v : Var) : Option Breach :=
  if p.declared.isReadOnly v then some (.readOnly v.name) else none

def addAssignment (p : Program) (v : Var) (source : ExprId) : ExprId × Program :=
  let t := p.declared.typeOf v
  { p with declared := p.declared.setInitialized v }.add (.assign v source) t

def addCast (p : Program) (t : Ty) (operand : ExprId) : ExprId × Program :=
  p.add (.cast t operand) t

def addBinary (p : Program) (op : Operator) (result : Ty) (left right : ExprId) :
    ExprId × Program :=
  p.add (.binary op left right) result

def addCall (p : Program) (callee : Callee) (receiver : Option ExprId) (args : List ExprId)
    (returns : Ty) : ExprId × Program :=
  p.add (.call callee receiver args) returns

def addConstruct (p : Program) (t : Ty) (args : List ExprId) : ExprId × Program :=
  p.add (.construct t args) t

def addInitializedLocal (p : Program) (modifiers : Modifiers) (t : Ty) : LocalId × Program :=
  let id := p.declared.locals.size
  (id, { p with declared := (p.declared.addLocal modifiers t).setInitialized (.localVar id) })

def addCounter (p : Program) : LocalId × Program :=
  (p.declared.locals.size, { p with declared := p.declared.addCounter })

def addInitializedField (p : Program) (modifiers : Modifiers) (t : Ty) (initializer : ExprId) :
    Program :=
  let id := p.declared.fields.size
  { p with
    declared := (p.declared.addField modifiers t).setInitialized (.field id)
    fields := p.fields.push ⟨id, initializer⟩ }

def addMethod (p : Program) (modifiers : Modifiers) (params : List Ty) (returns : Ty) :
    MethodId × Program :=
  (p.declared.methods.size, { p with declared := p.declared.addMethod modifiers params returns })

def addBody (p : Program) (m : MethodDeclaration) : Program :=
  { p with methods := p.methods.push m }

end Program
end JavaSmith
