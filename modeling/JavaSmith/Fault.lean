import JavaSmith.Diagnostic
import JavaSmith.Knob
import JavaSmith.CallGraph

/-! What can go wrong. A breach is a contract of the generator broken by a caller, never a property
of a generated class, and ends the whole run; every other fault ends only the attempt. -/
namespace JavaSmith

/-- A broken contract, with what is needed to tell it. -/
inductive Breach where
  /-- A constant that is not a value of the type given for it. -/
  | misfit (v : Value) (t : Ty)
  /-- An array type with a number of sizes other than its dimensions. -/
  | sizeCount (given : Nat) (t : Ty)
  /-- An array size that might be negative or too large. -/
  | sizeType (t : Ty)
  | readOnly (variableName : String)
  | argumentCount (b : Builder) (required given : Nat)
  | argumentType (given wanted : Ty)
  | emptyDomain (r : Restriction)
  | noLiteral (t : Ty)
  | closesCycle (caller callee : MethodId)
  | callsEntry (caller : String)
  | staticCallsInstance (caller callee : String)
  /-- An integer divisor that is not known to be nonzero where it has to be. -/
  | divisor (t : Ty)
  | product (wanted produced : Ty)
  /-- An array creation whose type is no array type. -/
  | arrayInit (t : Ty)
  /-- A generator was started with nothing left of a depth it spends. -/
  | budgetSpent
  deriving Inhabited

def Breach.message : Breach → String
  | misfit v t => s!"constant {v.shown} is not a value of {t.spelling}"
  | sizeCount given t => s!"{given} sizes given for {t.spelling}"
  | sizeType t => s!"array size of type {t.spelling} is not a valid index"
  | readOnly name => s!"assignment to read-only {name}"
  | argumentCount b required given => s!"{b.shown} requires {required} arguments, got {given}"
  | argumentType given wanted =>
    s!"argument of type {given.spelling} given where {wanted.spelling} is required"
  | emptyDomain r => s!"empty domain in {r.shown}"
  | noLiteral t => s!"no literal for {t.spelling}"
  | closesCycle caller callee =>
    s!"call from {shownMethod caller} to {shownMethod callee} would close a cycle"
  | callsEntry caller => s!"{caller} called the entry method"
  | staticCallsInstance caller callee => s!"static {caller} called instance method {callee}"
  | divisor t => s!"divisor of type {t.spelling} may be zero"
  | product wanted produced => s!"builder for {wanted.spelling} produces {produced.spelling}"
  | arrayInit t => s!"array init of {t.spelling}"
  | budgetSpent => "a depth budget is spent"

inductive Fault where
  | breach (b : Breach)
  /-- A class that cannot be written because an expression of the method has no value. -/
  | emission (className methodName : String)
  | knob (f : Knob.Fault)
  | unknownType (descriptor : String)
  deriving Inhabited

def Knob.Fault.message : Knob.Fault → String
  | unknown name => "unknown knob: " ++ name
  | invalid k value => "invalid value `" ++ value ++ "` for knob " ++ k.name

def Fault.message : Fault → String
  | breach b => "unexpected application state: " ++ b.message
  | emission className methodName =>
    s!"could not emit {className}.{methodName}: no value available for an expression"
  | knob f => f.message
  | unknownType descriptor => s!"type {descriptor} is not known to the type registry"

def Fault.isFatal : Fault → Bool
  | breach _ => true
  | _ => false

end JavaSmith
