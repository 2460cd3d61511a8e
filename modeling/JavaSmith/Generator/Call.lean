import JavaSmith.Generator.Argument

/-! Calls of generated methods. What a call costs is known when it is chosen, since only methods
that are complete are called; a new method is written at once. -/
namespace JavaSmith
namespace Generator

def acceptsResult (wanted : Option Ty) (m : Method) : Bool :=
  match wanted with
  | some t => t.accepts m.returns
  | none => true

/-- A method to call from `caller`: sometimes a new one, otherwise one that exists, fits and can be
afforded. The call is recorded before its arguments are made. -/
def calledMethod (newMethod : MethodGen) (site : Site) (caller : MethodId) (wanted : Option Ty) :
    Gen (Option MethodId) := do
  let maxMethods ← Gen.knob .maxMethods
  let count ← Gen.view fun p => p.declared.userMethodCount
  if ← (if count < maxMethods then Gen.roll .methodProbability else pure false) then
    let m ← newMethod site caller wanted
    return some m
  else
    let found ← Gen.drawDeclared fun d =>
      d.randomCallable caller fun m => acceptsResult wanted m && m.cost ≤ site.ctx.costBudget
    match found with
    | none => return none
    | some m =>
      Gen.addCallEdge caller m
      return some m

/-- A call of a generated method, or none where no method is called, none is found, it costs too
much or one of its arguments has no value. -/
def userCall (newMethod : MethodGen) (argument : ArgumentGen) (site : Site) (wanted : Option Ty) :
    Gen (Option ExprId) := do
  match site.ctx.method with
  | none => return none
  | some caller =>
    match ← calledMethod newMethod site caller wanted with
    | none => return none
    | some m =>
      let record ← Gen.view fun p => p.declared.method m
      if record.cost > site.ctx.costBudget then return none
      else
        match ← arguments argument false record.params with
        | none => return none
        | some args =>
          let e ← Gen.call ⟨record.isStatic, none, record.name, some m⟩ none args record.returns
          return some e

end Generator
end JavaSmith
