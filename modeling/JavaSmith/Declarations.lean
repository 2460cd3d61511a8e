import JavaSmith.Fault
import JavaSmith.Random.Choice

/-! Everything declared in the class under construction. Fields are named `f1`, `f2`, …, locals `v1`,
`v2`, … and methods `m1`, `m2`, … in order of declaration, so no name is given twice; the entry
method alone is called `run`. -/
namespace JavaSmith

structure Modifiers where
  isPublic : Bool
  isPrivate : Bool
  isStatic : Bool
  isFinal : Bool
  deriving DecidableEq, Inhabited

namespace Modifiers

def none : Modifiers := ⟨false, false, false, false⟩

/-- The flags as bits 0 to 3; higher bits mean nothing. -/
def ofBits (bits : Nat) : Modifiers :=
  ⟨bits.testBit 0, bits.testBit 1, bits.testBit 2, bits.testBit 3⟩

def toBits (m : Modifiers) : Nat :=
  m.isPublic.toNat + 2 * m.isPrivate.toNat + 4 * m.isStatic.toNat + 8 * m.isFinal.toNat

def keywords (m : Modifiers) : String :=
  (if m.isPublic then "public " else "") ++ (if m.isPrivate then "private " else "") ++
  (if m.isStatic then "static " else "") ++ (if m.isFinal then "final " else "")

end Modifiers

/-- Fields are numbered in the order of their declaration. Numbers have no bound here; those below `2 ^ 32`
are what 32-bit words would be, and a class that runs out of these fits no memory. -/
abbrev FieldId := Nat

/-- As for fields, numbers have no bound. -/
abbrev LocalId := Nat

inductive Var where
  | field (id : FieldId)
  | localVar (id : LocalId)
  deriving DecidableEq, Inhabited

def Var.name : Var → String
  | field id => s!"f{id + 1}"
  | localVar id => s!"v{id + 1}"

structure Field where
  modifiers : Modifiers
  type : Ty
  isInitialized : Bool
  deriving Inhabited

/-- A counter is written by the header of its loop alone. -/
structure Local where
  modifiers : Modifiers
  type : Ty
  isInitialized : Bool
  isCounter : Bool
  deriving Inhabited

structure Method where
  name : String
  modifiers : Modifiers
  params : List Ty
  returns : Ty
  isEntry : Bool
  /-- Bound on the statements one call executes, known once the body exists. -/
  cost : Nat
  deriving Inhabited

def Method.isStatic (m : Method) : Bool := m.modifiers.isStatic

structure Declarations where
  fields : Array Field
  locals : Array Local
  methods : Array Method
  calls : CallGraph
  deriving Inhabited

namespace Declarations

def empty : Declarations := ⟨#[], #[], #[], .empty⟩

def field (d : Declarations) (id : FieldId) : Field := d.fields[id]?.getD default

def localVar (d : Declarations) (id : LocalId) : Local := d.locals[id]?.getD default

def method (d : Declarations) (id : MethodId) : Method := d.methods[id]?.getD default

def userMethodCount (d : Declarations) : Nat := d.methods.countP (!·.isEntry)

def userMethods (d : Declarations) : List MethodId :=
  (List.range d.methods.size).filter fun id => !(d.method id).isEntry

def typeOf (d : Declarations) : Var → Ty
  | .field id => (d.field id).type
  | .localVar id => (d.localVar id).type

def isInitialized (d : Declarations) : Var → Bool
  | .field id => (d.field id).isInitialized
  | .localVar id => (d.localVar id).isInitialized

def isReadOnly (d : Declarations) : Var → Bool
  | .field id => (d.field id).modifiers.isFinal
  | .localVar id => (d.localVar id).isCounter || (d.localVar id).modifiers.isFinal

def modifiersOf (d : Declarations) : Var → Modifiers
  | .field id => (d.field id).modifiers
  | .localVar id => (d.localVar id).modifiers

def addField (d : Declarations) (modifiers : Modifiers) (type : Ty) : Declarations :=
  { d with fields := d.fields.push ⟨modifiers, type, false⟩ }

def addLocal (d : Declarations) (modifiers : Modifiers) (type : Ty) : Declarations :=
  { d with locals := d.locals.push ⟨modifiers, type, false, false⟩ }

def addCounter (d : Declarations) : Declarations :=
  { d with locals := d.locals.push ⟨.none, .primitive .int, true, true⟩ }

def appendMethod (d : Declarations) (m : Method) : Declarations :=
  { d with methods := d.methods.push m, calls := d.calls.addMethod }

def addMethod (d : Declarations) (modifiers : Modifiers) (params : List Ty) (returns : Ty) :
    Declarations :=
  d.appendMethod ⟨s!"m{d.userMethodCount + 1}", modifiers, params, returns, false, 0⟩

/-- The method from which the class is run: public, without parameters and never called. -/
def addEntry (d : Declarations) : Declarations :=
  d.appendMethod ⟨"run", { Modifiers.none with isPublic := true }, [], .void, true, 0⟩

def setInitialized (d : Declarations) : Var → Declarations
  | .field id => { d with fields := d.fields.modify id fun f => { f with isInitialized := true } }
  | .localVar id =>
    { d with locals := d.locals.modify id fun l => { l with isInitialized := true } }

def setCost (d : Declarations) (id : MethodId) (cost : Nat) : Declarations :=
  { d with methods := d.methods.modify id fun m => { m with cost } }

/-- Records that `caller` calls `callee`: not the entry, from a static method only a static one, and
without closing a cycle. -/
def addCallEdge (d : Declarations) (caller callee : MethodId) : Except Breach Declarations :=
  let source := d.method caller
  let target := d.method callee
  if target.isEntry then .error (.callsEntry source.name)
  else if source.isStatic && !target.isStatic then
    .error (.staticCallsInstance source.name target.name)
  else match d.calls.addEdge? caller callee with
    | none => .error (.closesCycle caller callee)
    | some calls => .ok { d with calls }

def callable (d : Declarations) (caller : MethodId) : List MethodId :=
  let excluded := d.calls.excludedFor caller
  d.userMethods.filter fun id =>
    id != caller && !excluded.contains id && (!(d.method caller).isStatic || (d.method id).isStatic)

/-- One of the callable methods that `accepts` takes, each with equal chance. -/
def randomCallable (d : Declarations) (caller : MethodId) (accepts : Method → Bool) :
    Random.Draw (Option MethodId) := do
  let candidates ← Random.shuffle (d.callable caller)
  return candidates.find? fun id => accepts (d.method id)

end Declarations
end JavaSmith
