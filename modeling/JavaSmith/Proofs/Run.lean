import JavaSmith.Generate
import JavaSmith.Proofs.Picks

/-! Runs of the generators with the random choices left open. A run leads from one state of the class
to a later one and has an outcome; what it says of a choice is what every draw satisfies. Runs are
derivations, so what holds of all generated classes is proved by induction on them. A run never ends
without a value: an attempt that leads nowhere is a detour of the run around it. -/
namespace JavaSmith

open Generator

def Program.Allows (p : Program) (k : Knob) : Prop := 0 < p.knobs.probability k

/-- Something else than a print may fill a place of a block. -/
def Program.MayNotPrint (p : Program) : Prop := p.knobs.probability .printProbability < 100

def Program.nestedLimit (p : Program) : Nat := max 1 ((p.knobs.get .maxMethodLength + 1) / 2)

/-- Types of new variables, parameters and results. -/
inductive OfferedType (c : Catalog) (knobs : Knobs) : Ty → Prop where
  | loopBound : OfferedType c knobs (.loopBound (knobs.get .maxLoopIterations))
  | arraySize : OfferedType c knobs (.arraySize (knobs.get .maxArrayDimensionSize))
  | flat {t : Ty} : t ∈ c.valueTypes ∨ t = .primitive .int → OfferedType c knobs t
  | array {t : Ty} {n : Nat} : t ∈ c.valueTypes ∨ t = .primitive .int →
      n < knobs.get .maxArrayDimensions → OfferedType c knobs (t.arrayOf (n + 1))

namespace Generator

/-- Operators for a result of the type, each with the operands it is used on. -/
inductive OperatorUse.For (allowDivideByZero : Bool) : Ty → OperatorUse → Prop where
  | text : For allowDivideByZero .string ⟨.add, none, .string⟩
  | comparison {op : Operator} {kind : Kind} : op ∈ Operator.comparison →
      kind ∈ [Kind.int, .long, .double] →
      For allowDivideByZero (.primitive .boolean) ⟨op, some kind, .primitive kind⟩
  | logical {op : Operator} : op ∈ Operator.logical →
      For allowDivideByZero (.primitive .boolean) ⟨op, some .boolean, .primitive .boolean⟩
  | numeric {op : Operator} {k : Kind} : k ≠ .boolean →
      op ∈ Operator.arithmetic ++ (if (computedKind k).isIntegral then Operator.integral else []) →
      For allowDivideByZero (.primitive k)
        ⟨op, some (computedKind k), rightType op (computedKind k) allowDivideByZero⟩

end Generator

/-- Nodes that a builder may make of its arguments; the constant of a literal is any that fits. -/
inductive Builder.Makes : Builder → List ExprId → Node → Prop where
  | null {t : Ty} : Makes (.null t) [] (.constant .null)
  | literal {t : Ty} {v : Value} : v ≠ .null → v.fits t = true → v.Drawn →
      Makes (.literal t) [] (.constant v)
  | boxing {k : Kind} {args : List ExprId} :
      Makes (.boxing k) args (.call ⟨true, some (.boxed k), "valueOf", none⟩ none args)
  | construct {t : Ty} {params : List Ty} {args : List ExprId} :
      Makes (.construct t params) args (.construct t args)
  | newArray {t index : Ty} {args : List ExprId} :
      Makes (.newArray t index) args (.newArray t args)
  | onClass {op : Operation} {args : List ExprId} : op.isStatic = true →
      Makes (.external op) args (.call ⟨true, some op.declaring, op.name, none⟩ none args)
  | onObject {op : Operation} {receiver : ExprId} {args : List ExprId} : op.isStatic = false →
      Makes (.external op) (receiver :: args) (.call ⟨false, none, op.name, none⟩ (some receiver) args)

namespace Program

def coerced (p : Program) (e : ExprId) (kind : Kind) : ExprId × Program :=
  if (p.typeOf e).kind? == some kind then (e, p) else p.addCast (coercedType (p.typeOf e) kind) e

def coercedOperands (p : Program) (use : OperatorUse) (left right : ExprId) :
    (ExprId × ExprId) × Program :=
  match use.kind? with
  | none => ((left, right), p)
  | some kind =>
    let left := p.coerced left kind
    let right := left.2.coerced right (if use.op.isShift then .int else kind)
    ((left.1, right.1), right.2)

/-- The operator on its operands, cast to the type if that does not accept the result. -/
def applied (p : Program) (use : OperatorUse) (t : Ty) (left right : ExprId) : ExprId × Program :=
  let operands := p.coercedOperands use left right
  let e := operands.2.addBinary use.op use.resultType operands.1.1 operands.1.2
  if t.accepts use.resultType then e else e.2.addCast t e.1

def addParameters (p : Program) : List Ty → List LocalId × Program
  | [] => ([], p)
  | t :: rest =>
    let l := p.addInitializedLocal .none t
    let ls := l.2.addParameters rest
    (l.1 :: ls.1, ls.2)

def withDeclared (p : Program) (d : Declarations) : Program := { p with declared := d }

def closeMethod (p : Program) (m : MethodId) (params : List LocalId) (body : Block) : Program :=
  (p.recordCost m body).addBody ⟨m, params, body⟩

end Program

namespace Site

def withoutNull (site : Site) (forbidNull : Bool) : Site :=
  if forbidNull then { site with ctx := site.ctx.withoutNull } else site

def afterBlock (site : Site) (b : Block) : Site := { site with scope := b.foldl after site.scope }

def inInitializer (site : Site) (isStatic : Bool) : Site :=
  ⟨site.catalog, site.ctx.enterInitializer isStatic, .empty⟩

def inBranch (site : Site) : Site :=
  { site with ctx := site.ctx.enterBranch, scope := site.scope.enter }

def inLoop (site : Site) (maxIterations : Nat) (counter : LocalId) : Site :=
  { site with
    ctx := site.ctx.enterLoop maxIterations, scope := site.scope.enter.declare counter }

def forbidsNullOf (site : Site) (t : Ty) : Bool := site.ctx.forbidsNull && t.isNullable

end Site

/-- A method that was declared for a caller and is not complete. The call is recorded before there is
a body, and the parameters are locals like any others. -/
structure Opening (site : Site) (caller : MethodId) (wanted : Option Ty) (p : Program) where
  isStatic : Bool
  params : List Ty
  returns : Ty
  declared : Declarations
  static : site.ctx.isStatic = true → isStatic = true
  few : params.length ≤ p.knobs.get .maxMethodParameters
  offered : ∀ t ∈ params, OfferedType site.catalog p.knobs t
  fits : ∀ t, wanted = some t → returns = t
  chosen : wanted = none → returns = .void ∨ OfferedType site.catalog p.knobs returns
  recorded : (p.declared.addMethod ⟨false, true, isStatic, false⟩ params returns).addCallEdge caller
    p.declared.methods.size = .ok declared

namespace Opening

variable {site : Site} {caller : MethodId} {wanted : Option Ty} {p : Program}

def method (_ : Opening site caller wanted p) : MethodId := p.declared.methods.size

def locals (o : Opening site caller wanted p) : List LocalId :=
  ((p.withDeclared o.declared).addParameters o.params).1

def program (o : Opening site caller wanted p) : Program :=
  ((p.withDeclared o.declared).addParameters o.params).2

def inner (o : Opening site caller wanted p) : Site :=
  ⟨site.catalog, site.ctx.enterMethod o.method o.isStatic site.ctx.costBudget,
   o.locals.foldl Scope.declare .empty⟩

end Opening

inductive Task where
  | expr (site : Site) (t : Ty)
  | argument (site : Site) (t : Ty) (forbidNull : Bool)
  | arguments (site : Site) (forbidNull : Bool) (ts : List Ty)
  | callee (site : Site) (caller : MethodId) (wanted : Option Ty)
  | call (site : Site) (wanted : Option Ty)
  | method (site : Site) (caller : MethodId) (wanted : Option Ty)
  | ending (site : Site) (returns : Ty)
  | bound (site : Site)
  | statement (site : Site)
  | block (site : Site) (length : Nat)
  | detour (site : Site) (wanted : Option Ty)

abbrev Task.Outcome : Task → Type
  | expr _ _ | argument _ _ _ | call _ _ | bound _ => ExprId
  | arguments _ _ _ => List ExprId
  | callee _ _ _ | method _ _ _ => MethodId
  | ending _ _ | statement _ | block _ _ => Block
  | detour _ _ => Unit

/-- `Run task p r p'` says that from the class `p` the task may have the outcome `r` and leave the
class as `p'`. -/
inductive Run : (task : Task) → Program → task.Outcome → Program → Prop where
  /-- A variable that fits. -/
  | reuse {site : Site} {t : Ty} {p : Program} {v : Var} :
      p.Allows .stateReuseProbability →
      site.scope.Offers p.declared site.ctx v → p.declared.isInitialized v = true →
      t.accepts (p.declared.typeOf v) = true →
      Run (.expr site t) p (p.addRead v).1 (p.addRead v).2
  | exprCall {site : Site} {t : Ty} {p p' : Program} {e : ExprId} :
      site.ctx.hasExprLevel = true → site.forbidsNullOf t = false →
      p.Allows .methodCallProbability →
      Run (.call site (some t)) p e p' → Run (.expr site t) p e p'
  | assign {site : Site} {t : Ty} {p p' : Program} {v : Var} {source : ExprId} :
      site.ctx.hasExprLevel = true → site.forbidsNullOf t = false →
      p.Allows .assignmentProbability →
      site.scope.Offers p.declared site.ctx v → p.declared.isReadOnly v = false →
      t.accepts (p.declared.typeOf v) = true →
      Run (.expr site.deeper (p.declared.typeOf v)) p source p' →
      Run (.expr site t) p (p'.addAssignment v source).1 (p'.addAssignment v source).2
  | binary {site : Site} {t : Ty} {p p' p'' : Program} {use : OperatorUse} {left right : ExprId} :
      site.ctx.hasExprLevel = true → p.Allows .binaryOpProbability →
      use.For site.ctx.allowDivideByZero t →
      Run (.expr site.deeper use.leftType) p left p' →
      Run (.expr site.deeper use.right) p' right p'' →
      Run (.expr site t) p (p''.applied use t left right).1 (p''.applied use t left right).2
  | cast {site : Site} {k source : Kind} {p p' : Program} {operand : ExprId} :
      site.ctx.hasExprLevel = true → p.Allows .castProbability →
      k.isNumeric = true → source.isNumeric = true →
      Run (.expr site.deeper (.primitive source)) p operand p' →
      Run (.expr site (.primitive k)) p (p'.addCast (.primitive k) operand).1
        (p'.addCast (.primitive k) operand).2
  | build {site : Site} {t : Ty} {p p' : Program} {b : Builder} {allowExternal : Bool}
      {args : List ExprId} {node : Node} :
      (allowExternal = true → p.Allows .externalCallProbability) →
      b ∈ candidates site t allowExternal →
      Run (.arguments site b.refusesNull b.parameters) p args p' → b.Makes args node →
      Run (.expr site t) p (p'.add node b.result).1 (p'.add node b.result).2
  | exprAfter {site : Site} {t : Ty} {p p' p'' : Program} {e : ExprId} :
      Run (.detour site (some t)) p () p' → Run (.expr site t) p' e p'' → Run (.expr site t) p e p''
  | argumentReuse {site : Site} {t : Ty} {forbidNull : Bool} {p : Program} {v : Var} :
      site.scope.Offers p.declared (site.deeper.withoutNull forbidNull).ctx v →
      p.declared.isInitialized v = true → t.accepts (p.declared.typeOf v) = true →
      Run (.argument site t forbidNull) p (p.addRead v).1 (p.addRead v).2
  | argumentExpr {site : Site} {t : Ty} {forbidNull : Bool} {p p' : Program} {e : ExprId} :
      site.ctx.hasExprLevel = true →
      Run (.expr (site.deeper.withoutNull forbidNull) t) p e p' →
      Run (.argument site t forbidNull) p e p'
  | argumentDirect {site : Site} {t : Ty} {forbidNull : Bool} {p : Program} {b : Builder}
      {node : Node} :
      site.ctx.hasExprLevel = false → b ∈ site.catalog.ownBuilders t →
      (b.isNull && forbidNull) = false → b.parameters = [] → b.Makes [] node →
      Run (.argument site t forbidNull) p (p.add node b.result).1 (p.add node b.result).2
  | argumentsNil {site : Site} {forbidNull : Bool} {p : Program} :
      Run (.arguments site forbidNull []) p [] p
  | argumentsCons {site : Site} {forbidNull : Bool} {t : Ty} {rest : List Ty}
      {p p' p'' : Program} {e : ExprId} {es : List ExprId} :
      Run (.argument site t forbidNull) p e p' →
      Run (.arguments site forbidNull rest) p' es p'' →
      Run (.arguments site forbidNull (t :: rest)) p (e :: es) p''
  /-- A method that exists, fits and can be afforded. -/
  | calleeFound {site : Site} {caller m : MethodId} {wanted : Option Ty} {p : Program}
      {d : Declarations} :
      m ∈ p.declared.callable caller → acceptsResult wanted (p.declared.method m) = true →
      (p.declared.method m).cost ≤ site.ctx.costBudget →
      p.declared.addCallEdge caller m = .ok d →
      Run (.callee site caller wanted) p m (p.withDeclared d)
  | calleeNew {site : Site} {caller m : MethodId} {wanted : Option Ty} {p p' : Program} :
      p.declared.userMethodCount < p.knobs.get .maxMethods → p.Allows .methodProbability →
      Run (.method site caller wanted) p m p' → Run (.callee site caller wanted) p m p'
  | call {site : Site} {caller m : MethodId} {wanted : Option Ty} {p p' p'' : Program}
      {record : Method} {args : List ExprId} :
      site.ctx.method = some caller → Run (.callee site caller wanted) p m p' →
      record = p'.declared.method m → record.cost ≤ site.ctx.costBudget →
      Run (.arguments site false record.params) p' args p'' →
      Run (.call site wanted) p
        (p''.addCall ⟨record.isStatic, none, record.name, some m⟩ none args record.returns).1
        (p''.addCall ⟨record.isStatic, none, record.name, some m⟩ none args record.returns).2
  | method {site : Site} {caller : MethodId} {wanted : Option Ty} {p p' p'' : Program}
      {o : Opening site caller wanted p} {length : Nat} {body last : Block} :
      length ≤ p.knobs.get .maxMethodLength →
      Run (.block o.inner length) o.program body p' →
      Run (.ending (o.inner.afterBlock body) o.returns) p' last p'' →
      Run (.method site caller wanted) p o.method (p''.closeMethod o.method o.locals (body ++ last))
  | endingVoid {site : Site} {p : Program} {last : Block} :
      last = [] ∨ last = [.returnVoid] → Run (.ending site .void) p last p
  | endingValue {site : Site} {returns : Ty} {p p' : Program} {e : ExprId} :
      returns.isVoid = false → Run (.expr site.atStatement returns) p e p' →
      Run (.ending site returns) p [.returnValue e] p'
  | boundReuse {site : Site} {p : Program} {v : Var} :
      p.Allows .stateReuseProbability →
      site.scope.Offers p.declared site.ctx v → p.declared.isInitialized v = true →
      (Ty.loopBound (p.knobs.get .maxLoopIterations)).accepts (p.declared.typeOf v) = true →
      Run (.bound site) p (p.addRead v).1 (p.addRead v).2
  | boundLiteral {site : Site} {p : Program} {t : Ty} {v : Value} :
      t = .loopBound (p.knobs.get .maxLoopIterations) → v.fits t = true →
      Run (.bound site) p (p.addConstant v t).1 (p.addConstant v t).2
  | print {site : Site} {t : Ty} {p p' : Program} {e : ExprId} :
      p.Allows .printProbability → t ∈ site.catalog.valueTypes ∨ t = .primitive .int →
      t.isPrintable = true → Run (.expr site t) p e p' → Run (.statement site) p [.print e] p'
  | assignStatement {site : Site} {p p' : Program} {v : Var} {source : ExprId} :
      p.MayNotPrint → p.Allows .assignmentProbability →
      site.scope.Offers p.declared site.ctx v → p.declared.isReadOnly v = false →
      Run (.expr site (p.declared.typeOf v)) p source p' →
      Run (.statement site) p [.expression (p'.addAssignment v source).1]
        (p'.addAssignment v source).2
  | callStatement {site : Site} {p p' : Program} {e : ExprId} :
      p.MayNotPrint → p.Allows .methodCallProbability → 0 < site.ctx.costBudget →
      Run (.call site none) p e p' → Run (.statement site) p [.expression e] p'
  | declare {site : Site} {t : Ty} {p p' : Program} {e : ExprId} {isFinal : Bool}
      {modifiers : Modifiers} :
      p.MayNotPrint → p.Allows .variableProbability → OfferedType site.catalog p.knobs t →
      Run (.expr site t) p e p' → modifiers = { Modifiers.none with isFinal } →
      Run (.statement site) p [.declare (p'.addInitializedLocal modifiers t).1 e]
        (p'.addInitializedLocal modifiers t).2
  | declareField {site : Site} {t : Ty} {p p' : Program} {e : ExprId} {isStatic isFinal : Bool} :
      p.MayNotPrint → p.Allows .fieldProbability → OfferedType site.catalog p.knobs t →
      (site.ctx.isStatic = true → isStatic = true) →
      Run (.expr (site.inInitializer isStatic) t) p e p' →
      Run (.statement site) p [] (p'.addInitializedField ⟨false, true, isStatic, isFinal⟩ t e)
  | ifThen {site : Site} {p p' p'' : Program} {condition : ExprId} {length : Nat} {body : Block} :
      p.MayNotPrint → p.Allows .controlFlowProbability → site.ctx.hasBlockLevel = true →
      0 < p.knobs.get .ifShare → Run (.expr site (.primitive .boolean)) p condition p' →
      length ≤ p.nestedLimit → Run (.block site.inBranch length) p' body p'' →
      Run (.statement site) p [.ifThen condition body] p''
  | ifElse {site : Site} {p p' p'' q : Program} {condition : ExprId} {length length' : Nat}
      {body otherwise : Block} :
      p.MayNotPrint → p.Allows .controlFlowProbability → site.ctx.hasBlockLevel = true →
      0 < p.knobs.get .ifShare → Run (.expr site (.primitive .boolean)) p condition p' →
      length ≤ p.nestedLimit → Run (.block site.inBranch length) p' body p'' →
      p.Allows .elseProbability →
      length' ≤ p.nestedLimit → Run (.block site.inBranch length') p'' otherwise q →
      Run (.statement site) p [.ifElse condition body otherwise] q
  | loop {site : Site} {p p' p'' : Program} {kind : LoopKind} {share : Nat} {bound : ExprId}
      {counter : LocalId × Program} {length : Nat} {body : Block} :
      p.MayNotPrint → p.Allows .controlFlowProbability → site.ctx.hasBlockLevel = true →
      (.loop kind, share) ∈ flowShares p.knobs site.ctx.costBudget → 0 < share →
      Run (.bound site) p bound p' → counter = p'.addCounter → length ≤ p.nestedLimit →
      Run (.block (site.inLoop (p.knobs.get .maxLoopIterations) counter.1) length) counter.2 body
        p'' →
      Run (.statement site) p [.loop kind counter.1 bound body] p''
  /-- A place of a block that stays empty. -/
  | noStatement {site : Site} {p : Program} : p.MayNotPrint → Run (.statement site) p [] p
  | statementAfter {site : Site} {p p' p'' : Program} {b : Block} :
      p.MayNotPrint → Run (.detour site none) p () p' → Run (.statement site) p' b p'' →
      Run (.statement site) p b p''
  | blockNil {site : Site} {p : Program} : Run (.block site 0) p [] p
  | blockCons {site : Site} {length : Nat} {p p' p'' : Program} {first rest : Block} :
      Run (.statement site.atStatement) p first p' →
      Run (.block (site.afterBlock first) length) p' rest p'' →
      Run (.block site (length + 1)) p (first ++ rest) p''
  | noDetour {site : Site} {wanted : Option Ty} {p : Program} : Run (.detour site wanted) p () p
  /-- A method was made, but the call turned out to cost too much. -/
  | detourMethod {site : Site} {caller m : MethodId} {wanted : Option Ty} {p p' : Program} :
      site.ctx.method = some caller → p.Allows .methodCallProbability →
      Run (.callee site caller wanted) p m p' → site.ctx.costBudget < (p'.declared.method m).cost →
      Run (.detour site wanted) p () p'
  /-- A call of which some argument had no value. -/
  | detourCall {site : Site} {caller m : MethodId} {wanted : Option Ty} {p p' p'' : Program}
      {ts : List Ty} {args : List ExprId} :
      site.ctx.method = some caller → p.Allows .methodCallProbability →
      Run (.callee site caller wanted) p m p' →
      (p'.declared.method m).cost ≤ site.ctx.costBudget → ts <+: (p'.declared.method m).params →
      Run (.arguments site false ts) p' args p'' → Run (.detour site wanted) p () p''
  /-- A builder of which some argument had no value. -/
  | detourBuilder {site : Site} {t : Ty} {p p' : Program} {b : Builder} {allowExternal : Bool}
      {ts : List Ty} {args : List ExprId} :
      (allowExternal = true → p.Allows .externalCallProbability) →
      b ∈ candidates site t allowExternal → ts <+: b.parameters →
      Run (.arguments site b.refusesNull ts) p args p' → Run (.detour site (some t)) p () p'
  | detourTrans {site : Site} {wanted : Option Ty} {p p' p'' : Program} :
      Run (.detour site wanted) p () p' → Run (.detour site wanted) p' () p'' →
      Run (.detour site wanted) p () p''

end JavaSmith
