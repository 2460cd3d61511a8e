import JavaSmith.Proofs.Generators.Arguments

/-! Types for what is new, and operators. An operator is chosen so that its operands can be made, and
on these it is never refused. -/
namespace JavaSmith

open Generator JavaSmith.Random

variable {c : Catalog} {n : Nat} {p : Program} {site : Site} {t : Ty} {sub : ExprGen}

namespace Generator

theorem ensures_valueType (c : Catalog) (p : Program) :
    Ensures (valueType c) p fun t p' => OfferedType c p.knobs t ∧ p' = p := by
  refine Ensures.draw (Always.trivial _) ?_
  rintro (_ | _) _
  · refine Ensures.draw (P := fun o => ∀ t, o = some t → t ∈ c.valueTypes)
      (fun s t => Random.choose_mem) fun chosen member => ?_
    have base : chosen.getD (.primitive .int) ∈ c.valueTypes ∨
        chosen.getD (.primitive .int) = .primitive .int := by
      cases chosen with
      | none => exact .inr rfl
      | some t => exact .inl (member t rfl)
    refine Ensures.draw (Always.trivial _) ?_
    rintro (_ | _) _
    · exact Ensures.pure ⟨.flat base, rfl⟩
    · refine Ensures.knob ?_
      have positive : 0 < p.knobs.get .maxArrayDimensions := (p.knobs.inRange .maxArrayDimensions).1
      refine Ensures.draw (always_index positive) fun n below => ?_
      exact Ensures.pure ⟨.array base below, rfl⟩
  · refine Ensures.draw (Always.trivial _) ?_
    rintro (_ | _) _
    · exact fun stream => ⟨_, _, rfl, .arraySize, rfl⟩
    · refine Ensures.knob ?_
      exact Ensures.pure ⟨.loopBound, rfl⟩

theorem always_booleanOperation (allow : Bool) :
    Always booleanOperation fun use => use.For allow (.primitive .boolean) := by
  refine Always.bind (Always.trivial _) ?_
  rintro (_ | _) _
  · refine Always.bind (always_choose (by decide)) ?_
    rintro _ ⟨op, member, rfl⟩
    exact Always.pure (.logical member)
  · refine Always.bind (always_choose (by decide)) ?_
    rintro _ ⟨op, member, rfl⟩
    refine Always.bind (always_choose (by decide)) ?_
    rintro _ ⟨kind, kinds, rfl⟩
    exact Always.pure (.comparison member kinds)

theorem always_numericOperation {k : Kind} (allow : Bool) (numeric : k ≠ .boolean) :
    Always (numericOperation (computedKind k) allow) fun use => use.For allow (.primitive k) := by
  refine Always.bind (always_choose (by simp [Operator.arithmetic])) ?_
  rintro _ ⟨op, member, rfl⟩
  exact Always.pure (.numeric numeric member)

theorem always_operationFor (t : Ty) (allow : Bool) :
    Always (operationFor t allow) fun o =>
      o.elim (isOperatorResult t = false) fun use => use.For allow t := by
  have found {d : Draw OperatorUse} (always : Always d fun use => use.For allow t) :
      Always (do let use ← d; return some use) fun o =>
        o.elim (isOperatorResult t = false) fun use => use.For allow t :=
    Always.bind always fun use chosen => Always.pure chosen
  unfold operationFor
  split
  · exact Always.pure .text
  · exact found (always_booleanOperation allow)
  · next k notBoolean =>
    exact found (always_numericOperation allow fun boolean => notBoolean (by rw [boolean]))
  · next text boolean numeric =>
    refine Always.pure ?_
    cases t <;> first | rfl | simp_all

end Generator

theorem Operator.not_comparison_of_isDivision {op : Operator} (division : op.isDivision = true) :
    op.isComparison = false := by
  cases op <;> first | rfl | contradiction

namespace Program

theorem Typed.excludesZero {e left right : ExprId} {op : Operator} {kind : Kind}
    (typed : p.Typed c e (.binary op left right) (.primitive kind)) (division : op.isDivision = true)
    (integral : kind.isIntegral = true) (forbidden : p.knobs.flag .allowDivideByZero = false) :
    (p.typeOf right).excludesZero = true := by
  cases typed with
  | binary _ _ _ _ _ guarded type =>
    rw [Operator.not_comparison_of_isDivision division] at type
    cases type
    exact guarded division integral forbidden

/-- No divisor is refused. -/
theorem Sound.excludesZero_of_isGuarded {use : OperatorUse} {left right : ExprId}
    (sound : p.Sound c) (chosen : use.For (p.knobs.flag .allowDivideByZero) t)
    (madeLeft : p.Made use.leftType left) (madeRight : p.Made use.right right)
    (guarded : use.isGuarded (p.knobs.flag .allowDivideByZero) = true) :
    ((p.coercedOperands use left right).2.typeOf
      (p.coercedOperands use left right).1.2).excludesZero = true := by
  have typed := (sound.coercedOperands chosen madeLeft madeRight).2
  have knobs := (p.extends_coercedOperands use left right).knobs
  simp only [OperatorUse.isGuarded, Bool.and_eq_true, Bool.not_eq_true'] at guarded
  obtain ⟨⟨division, integral⟩, forbidden⟩ := guarded
  obtain ⟨kind, computed, integral⟩ := (Option.any_eq_true _ _).1 integral
  have type : use.resultType = .primitive kind := by
    rw [OperatorUse.resultType, computed]
    dsimp only
    rw [Operator.not_comparison_of_isDivision division]
    rfl
  rw [type] at typed
  exact typed.excludesZero division integral (by rw [knobs, forbidden])

end Program

namespace Generator

theorem coerce_eq (p : Program) (e : ExprId) (kind : Kind) (stream : Random.Stream) :
    coerce e kind ⟨p, stream⟩ = .ok (p.coerced e kind).1 ⟨(p.coerced e kind).2, stream⟩ := by
  unfold Program.coerced
  split
  · next same =>
    change (if _ then _ else _ : Gen ExprId) _ = _
    rw [if_pos same]
    rfl
  · next differs =>
    change (if _ then _ else _ : Gen ExprId) _ = _
    rw [if_neg differs]
    rfl

theorem ensures_coerce (p : Program) (e : ExprId) (kind : Kind) :
    Ensures (coerce e kind) p fun e' p' =>
      e' = (p.coerced e kind).1 ∧ p' = (p.coerced e kind).2 :=
  fun stream => ⟨_, _, coerce_eq p e kind stream, rfl, rfl⟩

theorem ensures_coerceOperands (p : Program) (use : OperatorUse) (left right : ExprId) :
    Ensures (coerceOperands use left right) p fun operands p' =>
      operands = (p.coercedOperands use left right).1 ∧
      p' = (p.coercedOperands use left right).2 := by
  unfold coerceOperands Program.coercedOperands
  cases use.kind? with
  | none => exact Ensures.pure ⟨rfl, rfl⟩
  | some kind =>
    refine Ensures.bind (ensures_coerce _ _ _) ?_
    rintro _ _ ⟨rfl, rfl⟩
    refine Ensures.bind (ensures_coerce _ _ _) ?_
    rintro _ _ ⟨rfl, rfl⟩
    exact Ensures.pure ⟨rfl, rfl⟩

theorem ensures_applyOperator {use : OperatorUse} {left right : ExprId} (sound : p.Sound c)
    (good : site.Good c p) (chosen : use.For site.ctx.allowDivideByZero t)
    (madeLeft : p.Made use.leftType left) (madeRight : p.Made use.right right) :
    Ensures (applyOperator site use t left right) p fun e p' =>
      e = (p.applied use t left right).1 ∧ p' = (p.applied use t left right).2 := by
  rw [good.division] at chosen
  have excludes := sound.excludesZero_of_isGuarded chosen madeLeft madeRight
  refine Ensures.bind (ensures_coerceOperands p use left right) ?_
  rintro _ _ ⟨rfl, rfl⟩
  refine Ensures.view ?_
  unfold Program.applied
  split
  · next refused =>
    rw [good.division, Bool.and_eq_true, Bool.not_eq_true'] at refused
    rw [excludes refused.1] at refused
    exact absurd refused.2 Bool.noConfusion
  · refine Ensures.step ?_
    dsimp only
    split
    · exact Ensures.pure ⟨rfl, rfl⟩
    · exact Ensures.last ⟨rfl, rfl⟩

/-- Where a result of the type can come from an operator, one does. -/
theorem ensures_binaryOp (stage : Stage c n p) (good : site.Good c p)
    (level : site.ctx.hasExprLevel = true) (allowed : p.Allows .binaryOpProbability)
    (possible : isOperatorResult t = true) (operands : OperandsAt c n site sub) :
    Ensures (binaryOp sub site t) p (Run (.expr site t) p) := by
  have next := site.ctx.exprLevels_deeper
  refine Ensures.draw (always_operationFor t site.ctx.allowDivideByZero) ?_
  rintro (_ | use) chosen
  · have impossible : isOperatorResult t = false := chosen
    rw [impossible] at possible
    contradiction
  · have chosen : use.For site.ctx.allowDivideByZero t := chosen
    obtain ⟨leftValued, rightValued⟩ := chosen.valued
    refine Ensures.bind (operands level _ _ p stage good.deeper leftValued next) fun left p' run => ?_
    obtain ⟨stage', madeLeft⟩ := run.stage stage ⟨good.deeper, leftValued⟩
    have good' := good.later run.extends
    refine Ensures.bind (operands level _ _ p' stage' good'.deeper rightValued next)
      fun right p'' run' => ?_
    obtain ⟨stage'', madeRight⟩ := run'.stage stage' ⟨good'.deeper, rightValued⟩
    have madeLeft := madeLeft.later run'.extends
    refine Ensures.isHole stage''.sound madeLeft.inside ?_
    refine Ensures.isHole stage''.sound madeRight.inside ?_
    refine (ensures_applyOperator stage''.sound (good'.later run'.extends) chosen madeLeft
      madeRight).mono ?_
    rintro _ _ ⟨rfl, rfl⟩
    exact .binary level allowed chosen run run'

theorem ensures_castFrom (stage : Stage c n p) (good : site.Good c p)
    (level : site.ctx.hasExprLevel = true) (allowed : p.Allows .castProbability)
    (possible : isNumericPrimitive t = true) (operands : OperandsAt c n site sub) :
    Ensures (castFrom sub site t) p (Run (.expr site t) p) := by
  obtain ⟨k, rfl, numeric⟩ : ∃ k, t = .primitive k ∧ k.isNumeric = true := by
    cases t with
    | primitive k => exact ⟨k, rfl, possible⟩
    | _ => contradiction
  refine Ensures.draw (always_chooseOneByOne _) fun o ⟨chosen, _⟩ => ?_
  have source : (o.getD .int).isNumeric = true := by
    cases o with
    | none => rfl
    | some k' => exact (List.mem_filter.1 (chosen k' rfl)).2
  refine Ensures.bind (operands level _ _ p stage good.deeper trivial site.ctx.exprLevels_deeper)
    fun e p' run => ?_
  obtain ⟨stage', made⟩ := run.stage stage ⟨good.deeper, trivial⟩
  refine Ensures.isHole stage'.sound made.inside ?_
  change Ensures (Gen.cast (.primitive k) e) p' _
  exact Ensures.last (.cast level allowed numeric source run)

end Generator
end JavaSmith
