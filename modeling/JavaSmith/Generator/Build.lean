import JavaSmith.Generator.Draft

/-! Carrying out a builder. Whoever picked the arguments has checked them, so one that does not fit
is a broken contract. -/
namespace JavaSmith

def randomLiteral (t : Ty) : Gen Value :=
  match t with
  | .primitive k => Gen.draw (Random.constant k)
  | .restricted r => do
    let n ← Gen.draw (Random.inDomain r.domain)
    match n.bind (Value.integer? r.base) with
    | some v => return v
    | none => Gen.fail (.emptyDomain r)
  | .string => do
    let s ← Gen.draw Random.string
    return .string s
  | _ => Gen.fail (.noLiteral t)

namespace Builder

/-- First argument whose type the parameter at its place does not accept. -/
def mismatch? (p : Program) : List Ty → List ExprId → Option Breach
  | t :: ts, e :: es =>
    if t.accepts (p.typeOf e) then mismatch? p ts es else some (.argumentType (p.typeOf e) t)
  | _, _ => none

def refusal? (b : Builder) (p : Program) (args : List ExprId) : Option Breach :=
  if b.parameters.length ≠ args.length then
    some (.argumentCount b b.parameters.length args.length)
  else mismatch? p b.parameters args

def node (b : Builder) (args : List ExprId) : Gen ExprId :=
  match b with
  | null t => Gen.constant .null t
  | literal t => do
    let v ← randomLiteral t
    Gen.constant v t
  | boxing k => Gen.call ⟨true, some (.boxed k), "valueOf", none⟩ none args (.boxed k)
  | construct t _ => Gen.construct t args
  | newArray t _ => Gen.newArray t args
  | external op =>
    if op.isStatic then Gen.call ⟨true, some op.declaring, op.name, none⟩ none args op.returns
    else Gen.call ⟨false, none, op.name, none⟩ args.head? args.tail op.returns

def build (b : Builder) (args : List ExprId) : Gen ExprId := do
  match ← Gen.view fun p => b.refusal? p args with
  | some breach => Gen.fail breach
  | none => b.node args

end Builder
end JavaSmith
