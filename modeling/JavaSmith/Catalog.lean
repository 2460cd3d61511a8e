import JavaSmith.Fault

/-! The types a session knows, in the order of their descriptors, and the library operations it
admits. A descriptor stands for the type that was first registered under it. -/
namespace JavaSmith

structure Catalog where
  types : List Ty
  operations : List Operation
  indexType : Ty
  /-- How often the catalog was reset. -/
  epoch : Nat
  deriving Inhabited

namespace Catalog

/-- Adds the type at its place unless its descriptor is taken. -/
def insertType (t : Ty) : List Ty → List Ty
  | [] => [t]
  | u :: rest =>
    if t.descriptor < u.descriptor then t :: u :: rest
    else if t.descriptor = u.descriptor then u :: rest
    else u :: insertType t rest

def lookup? (c : Catalog) (descriptor : String) : Option Ty :=
  c.types.find? (·.descriptor == descriptor)

def lookup (c : Catalog) (descriptor : String) : Except Fault Ty :=
  match c.lookup? descriptor with
  | some t => .ok t
  | none => .error (.unknownType descriptor)

def isKnown (c : Catalog) (descriptor : String) : Bool := (c.lookup? descriptor).isSome

def register (c : Catalog) (t : Ty) : Catalog := { c with types := insertType t c.types }

/-- The type that stands for the descriptor of `t` once `t` is registered. -/
def registered (c : Catalog) (t : Ty) : Ty :=
  ((c.register t).lookup? t.descriptor).getD t

def basicTypes : List Ty := Kind.all.map .primitive ++ [.void, .string, .date, .object]

def registerAll (c : Catalog) (ts : List Ty) : Catalog := ts.foldl register c

def fresh (epoch : Nat) : Catalog :=
  registerAll ⟨[], [], .arraySize Knob.maxArrayDimensionSize.spec.default, epoch⟩ basicTypes

def new : Catalog := fresh 0

def reset (c : Catalog) : Catalog := fresh (c.epoch + 1)

def lookupAll (c : Catalog) (descriptors : List String) : Except Fault (List Ty) :=
  descriptors.mapM c.lookup

def registerLibrary (c : Catalog) : Except Fault Catalog := do
  let c := c.registerAll (Kind.all.map .boxed)
  let constructors ← Library.stringBuilderParameters.mapM c.lookupAll
  return (c.register (.named Library.stringBuilder true constructors)).register
    (.named Library.math true [])

def withIndexType (c : Catalog) (maxSize : Nat) : Catalog :=
  { c with indexType := .arraySize maxSize }

/-- The entry with its types, if all of them are catalogued. -/
def resolve? (c : Catalog) (e : Library.Entry) : Option Operation := do
  let declaring ← c.lookup? e.declaring
  let returns ← c.lookup? e.returns
  let params ← e.params.mapM c.lookup?
  return ⟨declaring, e.name, e.isStatic, returns, params, e.risk⟩

/-- Admits the library operations whose types are catalogued and which neither depend on identity
nor throw what is not allowed. -/
def withOperations (c : Catalog) (allowOverflow allowDivideByZero : Bool) : Catalog :=
  { c with
    operations := (Library.entries.filter fun e => !Library.excludedNames.contains e.name).filterMap
      fun e => (c.resolve? e).filter (·.isAllowed allowOverflow allowDivideByZero) }

def prepare (c : Catalog) (knobs : Knobs) : Except Fault Catalog := do
  let c ← c.registerLibrary
  return (c.withIndexType (knobs.get .maxArrayDimensionSize)).withOperations
    (knobs.flag .allowArithmeticOverflow) (knobs.flag .allowDivideByZero)

def ownBuilders (c : Catalog) (t : Ty) : List Builder :=
  (if t.isNullable then [.null t] else []) ++
  match t with
  | .void => []
  | .primitive _ | .restricted _ | .string => [.literal t]
  | .boxed k => [.boxing k]
  | .object => [.construct t []]
  | .date => [.construct t [.primitive .long]]
  | .named _ _ constructors => constructors.map (.construct t)
  | .array _ _ => [.newArray t c.indexType]

/-- Every builder whose value can be used where `t` is required. -/
def allBuilders (c : Catalog) (t : Ty) : List Builder :=
  c.ownBuilders t ++ (c.operations.filter fun op => t.accepts op.returns).map .external

/-- Whether variables, parameters and results may be of the type: not `void`, and no class that
nothing constructs. -/
def isValueType : Ty → Bool
  | .void => false
  | .named _ _ constructors => !constructors.isEmpty
  | _ => true

def valueTypes (c : Catalog) : List Ty := c.types.filter isValueType

end Catalog
end JavaSmith
