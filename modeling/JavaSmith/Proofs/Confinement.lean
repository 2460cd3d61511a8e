import JavaSmith.Proofs.Generation
import JavaSmith.Proofs.Nesting

/-! Domains of restricted types. An expression of a restricted type is a literal of the domain, or
gets its value from a place of that type or from another kind with the same domain; and what is
written to a restricted place lies within its domain already. So divisors, array sizes and loop bounds
keep what was promised of them wherever their values come from. -/
namespace JavaSmith

open Generator

theorem Generator.eq_restricted_of_coercedType {t : Ty} {k : Kind} {r : Restriction}
    (h : coercedType t k = .restricted r) :
    t = .restricted ⟨t.kind?.getD k, r.domain⟩ ∧ r.base = k := by
  cases t with
  | restricted r' =>
    unfold coercedType at h
    dsimp only at h
    split at h
    · cases made : Ty.restrictedTo? k r'.domain with
      | none =>
        rw [made] at h
        contradiction
      | some narrowed =>
        obtain ⟨r'', of, rfl⟩ := Option.map_eq_some_iff.1 made
        rw [made] at h
        cases h
        unfold Restriction.of? at of
        split at of
        · split at of
          · cases of
            exact ⟨rfl, rfl⟩
          · contradiction
        · contradiction
    · contradiction
  | _ => contradiction

namespace Program

/-- The node is a cast to a restricted type only where it changes the kind alone. -/
def CastKeeps (p : Program) (node : Node) : Prop :=
  ∀ r operand, node = .cast (.restricted r) operand →
    ∃ base, base ≠ r.base ∧ p.typeOf operand = .restricted ⟨base, r.domain⟩

def KeepsDomains (p : Program) : Prop := ∀ e, p.CastKeeps (p.node e)

variable {p p' : Program}

theorem inside_of_restricted {e : ExprId} {r : Restriction} (type : p.typeOf e = .restricted r) :
    e < p.arena.size := by
  by_contra outside
  have none : p.arena[e]? = none := Array.getElem?_eq_none (Nat.le_of_not_lt outside)
  unfold typeOf at type
  rw [none] at type
  contradiction

theorem CastKeeps.later {node : Node} (keeps : p.CastKeeps node) (h : p.Extends p') :
    p'.CastKeeps node := by
  intro r operand same
  obtain ⟨base, other, type⟩ := keeps r operand same
  exact ⟨base, other, (h.typeOf (inside_of_restricted type)).trans type⟩

theorem castKeeps_coerced (p : Program) {e : ExprId} {kind : Kind}
    (differs : (p.typeOf e).kind? ≠ some kind) :
    p.CastKeeps (.cast (coercedType (p.typeOf e) kind) e) := by
  intro r operand same
  obtain ⟨type, rfl⟩ := Node.cast.inj same
  obtain ⟨operandType, rfl⟩ := eq_restricted_of_coercedType type
  refine ⟨_, fun same => differs ?_, operandType⟩
  rw [operandType]
  exact congrArg some same

namespace KeepsDomains

theorem of_arena (keeps : p.KeepsDomains) (arena : p'.arena = p.arena) : p'.KeepsDomains := by
  intro e
  unfold CastKeeps node typeOf
  rw [arena]
  exact keeps e

theorem add (keeps : p.KeepsDomains) {node : Node} {t : Ty} (new : p.CastKeeps node) :
    (p.add node t).2.KeepsDomains := by
  intro e
  rcases p.node_add_cases node t e with ⟨_, same⟩ | same
  · rw [same]
    exact new.later (p.extends_add node t)
  · rw [same]
    exact (keeps e).later (p.extends_add node t)

theorem addOther (keeps : p.KeepsDomains) {node : Node} {t : Ty}
    (other : ∀ r operand, node ≠ .cast (.restricted r) operand) : (p.add node t).2.KeepsDomains :=
  keeps.add fun r operand same => absurd same (other r operand)

theorem coerced (keeps : p.KeepsDomains) (e : ExprId) (kind : Kind) :
    (p.coerced e kind).2.KeepsDomains := by
  unfold Program.coerced
  split
  · exact keeps
  · next differs => exact keeps.add (p.castKeeps_coerced (by simpa using differs))

theorem applied (keeps : p.KeepsDomains) {use : OperatorUse} {t : Ty} {allow : Bool}
    (chosen : use.For allow t) (left right : ExprId) :
    (p.applied use t left right).2.KeepsDomains := by
  have operands : (p.coercedOperands use left right).2.KeepsDomains := by
    unfold coercedOperands
    split
    · exact keeps
    · exact (keeps.coerced left _).coerced right _
  have unrestricted : ∀ r, t ≠ .restricted r := by
    cases chosen <;> simp
  have result : ((p.coercedOperands use left right).2.addBinary use.op use.resultType
      (p.coercedOperands use left right).1.1
      (p.coercedOperands use left right).1.2).2.KeepsDomains := operands.addOther (by simp)
  unfold Program.applied
  dsimp only
  split
  · exact result
  · refine result.addOther fun r operand same => unrestricted r ?_
    exact (Node.cast.inj same).1

end KeepsDomains
end Program

open Program

/-- A run adds no cast that changes a domain. -/
theorem Run.keepsDomains {task : Task} {p p' : Program} {r : task.Outcome} (run : Run task p r p') :
    p.KeepsDomains → p'.KeepsDomains := by
  induction run with
  | reuse | argumentReuse | boundReuse | boundLiteral => exact fun keeps => keeps.addOther (by simp)
  | argumentDirect _ _ _ _ makes => exact fun keeps => keeps.addOther (by cases makes <;> simp)
  | exprCall _ _ _ _ ih | argumentExpr _ _ ih | calleeNew _ _ _ ih | endingValue _ _ ih
  | print _ _ _ _ ih | callStatement _ _ _ _ ih | detourMethod _ _ _ _ ih
  | detourBuilder _ _ _ _ ih => exact ih
  | assign _ _ _ _ _ _ _ ih | assignStatement _ _ _ _ _ ih =>
    exact fun keeps => ((ih keeps).of_arena rfl).addOther (by simp)
  | binary _ _ chosen _ _ ih ih' => exact fun keeps => (ih' (ih keeps)).applied chosen _ _
  | cast _ _ _ _ _ ih => exact fun keeps => (ih keeps).addOther (by simp)
  | build _ _ _ makes ih => exact fun keeps => (ih keeps).addOther (by cases makes <;> simp)
  | exprAfter _ _ ih ih' | argumentsCons _ _ ih ih' | statementAfter _ _ _ ih ih'
  | blockCons _ _ ih ih' | detourTrans _ _ ih ih' | ifThen _ _ _ _ _ _ _ ih ih'
  | detourCall _ _ _ _ _ _ ih ih' => exact fun keeps => ih' (ih keeps)
  | argumentsNil | endingVoid | noStatement | blockNil | noDetour => exact id
  | calleeFound => exact fun keeps => keeps.of_arena rfl
  | call _ _ _ _ _ ih ih' => exact fun keeps => (ih' (ih keeps)).addOther (by simp)
  | @method _ _ _ _ _ _ o _ _ _ _ _ _ ih ih' =>
    intro keeps
    have opened : o.program.KeepsDomains := keeps.of_arena (arena_addParameters _ o.params)
    exact (ih' (ih opened)).of_arena rfl
  | declare _ _ _ _ _ ih | declareField _ _ _ _ _ ih => exact fun keeps => (ih keeps).of_arena rfl
  | ifElse _ _ _ _ _ _ _ _ _ _ ih ih' ih'' => exact fun keeps => ih'' (ih' (ih keeps))
  | loop _ _ _ _ _ _ counter _ _ ih ih' =>
    subst counter
    exact fun keeps => ih' ((ih keeps).of_arena rfl)

namespace Program

inductive Restricts (p : Program) (r : Restriction) : Node → Prop where
  | literal {v : Value} {n : Int} : v.kind? = some r.base → v.toInt? = some n →
      r.domain.holds n = true → Restricts p r (.constant v)
  | read {v : Var} : p.declared.Declares v → p.declared.typeOf v = .restricted r →
      Restricts p r (.read v)
  | assign {v : Var} {source : ExprId} : p.declared.Declares v →
      p.declared.typeOf v = .restricted r → Restricts p r (.assign v source)
  /-- A generated method with that result type. -/
  | call {callee : Callee} {m : MethodId} {args : List ExprId} : callee.method = some m →
      m < p.declared.methods.size → (p.declared.method m).returns = .restricted r →
      Restricts p r (.call callee none args)
  /-- The same numbers in another integral kind, which holds them all. -/
  | cast {operand : ExprId} {base : Kind} : p.typeOf operand = .restricted ⟨base, r.domain⟩ →
      base.isIntegral = true → base ≠ r.base → r.Valid →
      Restricts p r (.cast (.restricted r) operand)

/-- The value of the expression is written to the variable: as its first value, by an assignment, or
as an argument of the method whose parameter it is. -/
inductive Stores (p : Program) : Var → ExprId → Prop where
  | field {f : FieldDeclaration} : f ∈ p.fields.toList → Stores p (.field f.field) f.initializer
  | declare {l : LocalId} {e : ExprId} : .declare l e ∈ p.statements → Stores p (.localVar l) e
  | assign {e source : ExprId} {v : Var} : p.node e = .assign v source → Stores p v source
  | argument {e a : ExprId} {m : MethodDeclaration} {callee : Callee} {receiver : Option ExprId}
      {args : List ExprId} {l : LocalId} : p.node e = .call callee receiver args →
      m ∈ p.methodsInOrder → callee.method = some m.method → (l, a) ∈ m.params.zip args →
      Stores p (.localVar l) a

def Returns (p : Program) (m : MethodId) (e : ExprId) : Prop :=
  ∃ d ∈ p.methodsInOrder, d.method = m ∧ .returnValue e ∈ visitBlock d.body

/-- The type of the expression restricts it to numbers of the domain. -/
def Within (p : Program) (d : Domain) (e : ExprId) : Prop :=
  ∃ r, p.typeOf e = .restricted r ∧ d.contains r.domain = true

/-- Restricted domains are respected everywhere in the class. -/
structure Confined (p : Program) : Prop where
  nodes : ∀ e r, p.typeOf e = .restricted r → p.Restricts r (p.node e)
  stores : ∀ v e r, p.Stores v e → p.declared.typeOf v = .restricted r → p.Within r.domain e
  returns : ∀ m e r, p.Returns m e → (p.declared.method m).returns = .restricted r →
    p.Within r.domain e
  /-- The type of a division is the kind in which it is computed. -/
  divisors : p.knobs.flag .allowDivideByZero = false → ∀ e op left right k,
    p.node e = .binary op left right → op.isDivision = true → (p.typeOf e).kind? = some k →
    k.isIntegral = true → (p.typeOf right).excludesZero = true
  sizes : ∀ e t sizes, p.node e = .newArray t sizes → ∀ s ∈ sizes,
    p.Within (.range 0 (p.knobs.get .maxArrayDimensionSize)) s
  bounds : ∀ kind counter bound body, .loop kind counter bound body ∈ p.statements →
    p.Within (.range 1 (p.knobs.get .maxLoopIterations)) bound
  /-- A loop steps no restricted variable. -/
  counters : ∀ kind counter bound body, .loop kind counter bound body ∈ p.statements →
    p.declared.typeOf (.localVar counter) = .primitive .int

variable {c : Catalog} {p : Program} {e : ExprId} {r : Restriction}

theorem Made.within (made : p.Made (.restricted r) e) : p.Within r.domain e := by
  obtain ⟨r', type, _, contained⟩ := Ty.restricted_accepts made.accepted
  exact ⟨r', type, contained⟩

theorem Sound.valid (sound : p.Sound c) (type : p.typeOf e = .restricted r) : r.Valid := by
  have valued := sound.valued e (inside_of_restricted type)
  rw [type] at valued
  exact valued.resolve_right (by simp)

theorem Sound.restricts {knobs : Knobs} (sound : p.Sound c) (prepared : c.Prepared knobs)
    (keeps : p.KeepsDomains) (type : p.typeOf e = .restricted r) : p.Restricts r (p.node e) := by
  have typed := sound.typed e (inside_of_restricted type)
  have keeps := keeps e
  rw [type] at typed
  generalize p.node e = node at typed keeps
  generalize same : Ty.restricted r = t at typed
  cases typed with
  | constant fits =>
    subst same
    obtain ⟨n, kind, number, held⟩ := Value.exists_of_fits_restricted fits
    exact .literal kind number held
  | read declared type => exact .read declared (type.symm.trans same.symm)
  | assign declared _ type => exact .assign declared (type.symm.trans same.symm)
  | call known _ type => exact .call rfl known (type.symm.trans same.symm)
  | onClass admitted | onObject admitted =>
    exact absurd same.symm (prepared.returns_ne_restricted admitted r)
  | construct offered =>
    subst same
    simp [Catalog.ownBuilders, Ty.isNullable, Ty.isReference] at offered
  | cast =>
    subst same
    obtain ⟨base, other, operandType⟩ := keeps r _ rfl
    obtain ⟨lo, hi, bounds, _⟩ := (sound.valid operandType).bounded
    exact .cast operandType (Option.isSome_of_eq_some bounds) other (sound.valid type)
  | binary _ _ _ _ _ _ type => rw [type] at same; contradiction
  | _ => contradiction

end Program

namespace Generated

variable {c : Catalog} {p : Program} {seed : UInt64} {config : Config}

theorem keepsDomains (generated : Generated c seed config p) : p.KeepsDomains := by
  obtain ⟨length, body, q, _, run, rfl⟩ := generated.run
  have new : (Program.new config.className seed config.knobs).KeepsDomains :=
    fun e r operand same => by contradiction
  exact (run.keepsDomains new).of_arena rfl

theorem statementTyped (generated : Generated c seed config p) {s : Statement}
    (member : s ∈ p.statements) : ∃ returns, p.StatementTyped returns s := by
  obtain ⟨m, declared, visited⟩ := List.mem_flatMap.1 member
  exact ⟨_, (generated.methodTyped m declared).body s visited⟩

theorem accepts_of_stores (generated : Generated c seed config p) {v : Var} {e : ExprId}
    (stores : p.Stores v e) : (p.declared.typeOf v).accepts (p.typeOf e) = true := by
  have sound := generated.sound
  cases stores with
  | field member => exact (sound.fields _ member).initializer.accepted
  | declare member =>
    obtain ⟨_, _, made⟩ := generated.statementTyped member
    exact made.accepted
  | assign same =>
    have typed := sound.typed_of_node same (by simp)
    generalize p.typeOf _ = t at typed
    cases typed with
    | assign _ _ type _ accepted => exact type ▸ accepted
  | argument same declared called pair =>
    have typed := sound.typed_of_node same (by simp)
    generalize p.typeOf _ = t at typed
    cases typed with
    | call _ given _ =>
      cases called
      rw [← (generated.methodTyped _ declared).params] at given
      exact (List.forall₂_zip (List.forall₂_map_left_iff.1 given) pair).2
    | _ => contradiction

theorem made_of_returns (generated : Generated c seed config p) {m : MethodId} {e : ExprId}
    (returned : p.Returns m e) : p.Made (p.declared.method m).returns e := by
  obtain ⟨d, declared, rfl, visited⟩ := returned
  exact (generated.methodTyped d declared).body _ visited

theorem excludesZero (generated : Generated c seed config p)
    (forbidden : p.knobs.flag .allowDivideByZero = false) {e left right : ExprId} {op : Operator}
    {k : Kind} (same : p.node e = .binary op left right) (division : op.isDivision = true)
    (kind : (p.typeOf e).kind? = some k) (integral : k.isIntegral = true) :
    (p.typeOf right).excludesZero = true := by
  have typed := generated.sound.typed_of_node same (by simp)
  generalize p.typeOf e = t at typed kind
  cases typed with
  | concat => contradiction
  | binary _ _ _ _ _ guarded type =>
    have plain : op.isComparison = false := by
      cases op <;> first | rfl | contradiction
    rw [type, plain] at kind
    cases kind
    exact guarded division integral forbidden

theorem within_of_newArray (generated : Generated c seed config p) {e s : ExprId} {t : Ty}
    {sizes : List ExprId} (same : p.node e = .newArray t sizes) (member : s ∈ sizes) :
    p.Within (.range 0 (p.knobs.get .maxArrayDimensionSize)) s := by
  have typed := generated.sound.typed_of_node same (by simp)
  generalize p.typeOf e = t' at typed
  cases typed with
  | newArray _ given =>
    obtain ⟨t, wanted, _, accepted⟩ := given.exists_accepting member
    rw [(List.mem_replicate.1 wanted).2] at accepted
    obtain ⟨r, type, _, contained⟩ := Ty.restricted_accepts accepted
    exact ⟨r, type, contained⟩

theorem within_of_loop (generated : Generated c seed config p) {kind : LoopKind}
    {counter : LocalId} {bound : ExprId} {body : Block}
    (member : .loop kind counter bound body ∈ p.statements) :
    p.Within (.range 1 (p.knobs.get .maxLoopIterations)) bound := by
  obtain ⟨_, _, made⟩ := generated.statementTyped member
  have least : 1 ≤ p.knobs.get .maxLoopIterations := (p.knobs.inRange .maxLoopIterations).1
  have bounded := Made.within made
  rwa [Nat.max_eq_left least] at bounded

/-- Restricted domains are respected everywhere. -/
theorem confined (generated : Generated c seed config p) : p.Confined where
  nodes _ _ := generated.sound.restricts generated.prepared generated.keepsDomains
  stores v e r stored type := by
    have accepted := generated.accepts_of_stores stored
    rw [type] at accepted
    obtain ⟨r', type, _, contained⟩ := Ty.restricted_accepts accepted
    exact ⟨r', type, contained⟩
  returns m e r returned type := by
    have made := generated.made_of_returns returned
    rw [type] at made
    exact made.within
  divisors forbidden _ _ _ _ _ := generated.excludesZero forbidden
  sizes _ _ _ same _ := generated.within_of_newArray same
  bounds _ _ _ _ := generated.within_of_loop
  counters _ _ _ _ member := by
    obtain ⟨_, counter, _⟩ := generated.statementTyped member
    exact counter.2

end Generated
end JavaSmith
