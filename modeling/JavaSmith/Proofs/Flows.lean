import JavaSmith.Proofs.Confinement

/-! Integers on their way through a class. They start at constants, operators and library operations,
and move on through variables, parameters, results and casts. The relation takes every write into
account and no order of execution, so it holds of whatever a run brings about. In a generated class no
number leaves the domain it is restricted to, and guarded operations cannot fail. -/
namespace JavaSmith

inductive Place where
  | expr (e : ExprId)
  | var (v : Var)
  /-- What calls of the method give. -/
  | result (m : MethodId)

def Kind.Has (k : Kind) (n : Int) : Prop := ∃ lo hi, k.bounds? = some (lo, hi) ∧ lo ≤ n ∧ n ≤ hi

theorem Restriction.Valid.has {r : Restriction} (valid : r.Valid) {n : Int}
    (held : r.domain.holds n = true) : r.base.Has n := by
  obtain ⟨lo, hi, bounds, within⟩ := valid.bounded
  exact ⟨lo, hi, bounds, within n held⟩

namespace Program

def typeAt (p : Program) : Place → Ty
  | .expr e => p.typeOf e
  | .var v => p.declared.typeOf v
  | .result m => (p.declared.method m).returns

/-- `p.Holds place n` says that the place may hold the number at some time. Results of operators and
library operations may be any number of their kind. -/
inductive Holds (p : Program) : Place → Int → Prop where
  | constant {e : ExprId} {v : Value} {n : Int} : p.node e = .constant v → v.toInt? = some n →
      Holds p (.expr e) n
  | read {e : ExprId} {v : Var} {n : Int} : p.node e = .read v → Holds p (.var v) n →
      Holds p (.expr e) n
  | assigned {e source : ExprId} {v : Var} {n : Int} : p.node e = .assign v source →
      Holds p (.expr source) n → Holds p (.expr e) n
  | called {e : ExprId} {callee : Callee} {receiver : Option ExprId} {args : List ExprId}
      {m : MethodId} {n : Int} : p.node e = .call callee receiver args → callee.method = some m →
      Holds p (.result m) n → Holds p (.expr e) n
  | library {e : ExprId} {callee : Callee} {receiver : Option ExprId} {args : List ExprId}
      {k : Kind} {n : Int} : p.node e = .call callee receiver args → callee.method = none →
      (p.typeOf e).kind? = some k → k.Has n → Holds p (.expr e) n
  | computed {e left right : ExprId} {op : Operator} {k : Kind} {n : Int} :
      p.node e = .binary op left right → (p.typeOf e).kind? = some k → k.Has n → Holds p (.expr e) n
  /-- A cast leaves the numbers of the kind alone. -/
  | kept {e operand : ExprId} {t : Ty} {k : Kind} {n : Int} : p.node e = .cast t operand →
      t.kind? = some k → Holds p (.expr operand) n → k.Has n → Holds p (.expr e) n
  /-- Other numbers wrap around. -/
  | wrapped {e operand : ExprId} {t : Ty} {k : Kind} {n n' : Int} : p.node e = .cast t operand →
      t.kind? = some k → Holds p (.expr operand) n' → ¬k.Has n' → k.Has n → Holds p (.expr e) n
  /-- Floating values are not followed. -/
  | truncated {e operand : ExprId} {t : Ty} {k : Kind} {n : Int} : p.node e = .cast t operand →
      t.kind? = some k → (p.typeOf operand).kind?.any Kind.isIntegral = false → k.Has n →
      Holds p (.expr e) n
  | stored {v : Var} {e : ExprId} {n : Int} : p.Stores v e → Holds p (.expr e) n →
      Holds p (.var v) n
  | counted {kind : LoopKind} {counter : LocalId} {bound : ExprId} {body : Block} {n : Int} :
      .loop kind counter bound body ∈ p.statements → Holds p (.var (.localVar counter)) n
  | returned {m : MethodId} {e : ExprId} {n : Int} : p.Returns m e → Holds p (.expr e) n →
      Holds p (.result m) n

variable {p : Program} {place : Place} {e : ExprId} {n : Int}

namespace Confined

theorem restricts (confined : p.Confined) {node : Node} {r : Restriction} (same : p.node e = node)
    (type : p.typeOf e = .restricted r) : p.Restricts r node :=
  same ▸ confined.nodes e r type

/-- Where domains are respected, no number leaves the domain of a restricted place. -/
theorem holds (confined : p.Confined) (holds : p.Holds place n) :
    ∀ r, p.typeAt place = .restricted r → r.domain.holds n = true := by
  have moved {e : ExprId} {d : Domain} {n : Int} (within : p.Within d e)
      (ih : ∀ r, p.typeOf e = .restricted r → r.domain.holds n = true) : d.holds n = true := by
    obtain ⟨r, type, contained⟩ := within
    exact Domain.holds_of_contains contained (ih r type)
  induction holds with
  | constant same number =>
    intro r type
    cases confined.restricts same type with
    | literal _ number' held =>
      rw [number] at number'
      cases number'
      exact held
  | read same _ ih =>
    intro r type
    cases confined.restricts same type with
    | read _ variableType => exact ih r variableType
  | assigned same _ ih =>
    intro r type
    cases confined.restricts same type with
    | assign _ variableType => exact moved (confined.stores _ _ r (.assign same) variableType) ih
  | called same callee _ ih =>
    intro r type
    cases confined.restricts same type with
    | call callee' _ result =>
      rw [callee] at callee'
      cases callee'
      exact ih r result
  | library same none =>
    intro r type
    cases confined.restricts same type with
    | call callee =>
      rw [none] at callee
      contradiction
  | computed same =>
    intro r type
    cases confined.restricts same type
  | kept same _ _ _ ih =>
    intro r type
    cases confined.restricts same type with
    | @cast _ base operandType => exact ih ⟨base, r.domain⟩ operandType
  | wrapped same kind _ outside _ ih =>
    intro r type
    cases confined.restricts same type with
    | @cast _ base operandType _ _ valid =>
      cases kind
      exact absurd (valid.has (ih ⟨base, r.domain⟩ operandType)) outside
  | truncated same _ floating =>
    intro r type
    cases confined.restricts same type with
    | cast operandType integral =>
      rw [operandType] at floating
      exact absurd integral (Bool.eq_false_iff.1 floating)
  | stored stored _ ih => exact fun r type => moved (confined.stores _ _ r stored type) ih
  | counted member =>
    intro r type
    have counter : p.typeAt (.var (.localVar _)) = .primitive .int :=
      confined.counters _ _ _ _ member
    rw [counter] at type
    contradiction
  | returned returned _ ih => exact fun r type => moved (confined.returns _ _ r returned type) ih

theorem between (confined : p.Confined) {lo hi : Int} (within : p.Within (.range lo hi) e)
    (holds : p.Holds (.expr e) n) : lo ≤ n ∧ n ≤ hi := by
  obtain ⟨r, type, contained⟩ := within
  exact Domain.holds_range.1 (Domain.holds_of_contains contained (confined.holds holds r type))

theorem ne_zero (confined : p.Confined) (excludes : (p.typeOf e).excludesZero = true)
    (holds : p.Holds (.expr e) n) : n ≠ 0 := by
  rintro rfl
  cases type : p.typeOf e with
  | restricted r =>
    rw [type, Ty.excludesZero, Domain.excludesZero, confined.holds holds r type] at excludes
    contradiction
  | _ =>
    rw [type] at excludes
    contradiction

end Confined

/-- No number makes a guarded operation fail: integers are not divided by zero unless that is allowed,
and arrays and loops have the sizes that the settings give. -/
structure Guarded (p : Program) : Prop where
  divisors : p.knobs.flag .allowDivideByZero = false → ∀ e op left right k n,
    p.node e = .binary op left right → op.isDivision = true → (p.typeOf e).kind? = some k →
    k.isIntegral = true → p.Holds (.expr right) n → n ≠ 0
  sizes : ∀ e t sizes, p.node e = .newArray t sizes → ∀ s ∈ sizes, ∀ n, p.Holds (.expr s) n →
    0 ≤ n ∧ n ≤ p.knobs.get .maxArrayDimensionSize
  bounds : ∀ kind counter bound body, .loop kind counter bound body ∈ p.statements →
    ∀ n, p.Holds (.expr bound) n → 1 ≤ n ∧ n ≤ p.knobs.get .maxLoopIterations

theorem Confined.guarded (confined : p.Confined) : p.Guarded where
  divisors forbidden e op left right k _ same division kind integral :=
    confined.ne_zero (confined.divisors forbidden e op left right k same division kind integral)
  sizes e t sizes same s member _ := confined.between (confined.sizes e t sizes same s member)
  bounds kind counter bound body member _ :=
    confined.between (confined.bounds kind counter bound body member)

end Program

/-- Generated classes respect the domains of restricted types, and no guarded operation fails. -/
theorem generated_confined (catalog : Catalog) (seed : UInt64) (config : Config) :
    ∃ p c, generateWith catalog seed config = .ok (p, c) ∧ p.knobs = config.knobs ∧ p.Confined ∧
      (∀ place r n, p.typeAt place = .restricted r → p.Holds place n → r.domain.holds n = true) ∧
      p.Guarded := by
  obtain ⟨p, c, done, generated⟩ := generateWith_ok catalog seed config
  have confined := generated.confined
  exact ⟨p, c, done, generated.knobs, confined,
    fun _ r _ type held => confined.holds held r type, confined.guarded⟩

end JavaSmith
