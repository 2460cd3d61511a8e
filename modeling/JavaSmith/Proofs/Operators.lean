import JavaSmith.Proofs.Run
import JavaSmith.Proofs.ValueTypes

/-! Operands of operators. An operand is cast where its kind is not that of the operator, and a cast
integer keeps its domain, so a divisor that excludes zero still excludes it as it is divided by. -/
namespace JavaSmith

open Generator

theorem Kind.isWideningOf_int {k : Kind} (h : k ∈ [Kind.int, .long]) :
    k.isWideningOf .int = true ∧ k.isIntegral = true := by
  revert k
  decide

namespace Generator

theorem kind_coercedType (t : Ty) (k : Kind) : (coercedType t k).kind? = some k := by
  cases t with
  | restricted r =>
    unfold coercedType
    dsimp only
    split
    · cases made : Ty.restrictedTo? k r.domain with
      | none => rfl
      | some narrowed =>
        obtain ⟨r', of, rfl⟩ := Option.map_eq_some_iff.1 made
        unfold Restriction.of? at of
        split at of
        · split at of
          · cases of
            rfl
          · contradiction
        · contradiction
    · rfl
  | _ => rfl

theorem valued_coercedType {t : Ty} (valued : t.Valued) (k : Kind) : (coercedType t k).Valued := by
  cases t with
  | restricted r =>
    unfold coercedType
    dsimp only
    split
    · cases made : Ty.restrictedTo? k r.domain with
      | none => trivial
      | some narrowed =>
        obtain ⟨r', of, rfl⟩ := Option.map_eq_some_iff.1 made
        exact ((Restriction.of?_eq_some_iff valued.ordered).1 of).2
    · trivial
  | _ => trivial

theorem coercedType_of_valid {r : Restriction} {k : Kind}
    (valid : (⟨k, r.domain⟩ : Restriction).Valid) :
    coercedType (.restricted r) k = .restricted ⟨k, r.domain⟩ := by
  have made : Restriction.of? k r.domain = some ⟨k, r.domain⟩ :=
    (Restriction.of?_eq_some_iff valid.ordered).2 ⟨rfl, valid⟩
  have integral : k.isIntegral = true := by
    obtain ⟨lo, hi, bounds, _⟩ := valid.bounded
    exact Option.isSome_of_eq_some bounds
  unfold coercedType
  dsimp only
  rw [if_pos integral, Ty.restrictedTo?, made]
  rfl

theorem coercedType_of_isWideningOf {r : Restriction} {k : Kind} (valid : r.Valid)
    (widens : k.isWideningOf r.base = true) (integral : k.isIntegral = true) :
    coercedType (.restricted r) k = .restricted ⟨k, r.domain⟩ :=
  coercedType_of_valid (valid.widened widens integral)

theorem isNumeric_of_coerced {k : Kind} {t : Ty} (given : (Ty.primitive k).accepts t = true)
    (differs : t.kind? ≠ some k) : k.isNumeric = true ∧ t.isNumeric = true := by
  have numeric : k.isNumeric = true := by
    cases k with
    | boolean => exact absurd (Ty.boolean_accepts given) differs
    | _ => rfl
  exact ⟨numeric, Ty.isNumeric_of_accepts given (by simpa [Ty.isNumeric, Ty.kind?] using numeric)⟩

end Generator

inductive Operator.On : Operator → Kind → Prop where
  | arithmetic {op : Operator} {k : Kind} : op ∈ Operator.arithmetic →
      k ∈ [Kind.int, .long, .float, .double] → On op k
  | integral {op : Operator} {k : Kind} : op ∈ Operator.integral → k ∈ [Kind.int, .long] → On op k
  | comparison {op : Operator} {k : Kind} : op ∈ Operator.comparison → k.isNumeric = true → On op k
  | logical {op : Operator} : op ∈ Operator.logical → On op .boolean

theorem computedKind_mem (k : Kind) :
    Generator.computedKind k ∈ [Kind.int, .long, .float, .double] := by
  cases k <;> decide

theorem computedKind_mem_of_isIntegral {k : Kind}
    (integral : (Generator.computedKind k).isIntegral = true) :
    Generator.computedKind k ∈ [Kind.int, .long] := by
  revert integral
  cases k <;> decide

namespace Generator.OperatorUse

variable {allow : Bool} {t : Ty} {use : OperatorUse}

/-- A use on texts, or one on operands of a kind on which the operator is defined. The right operand
is of that kind, an `int` for a shift, or a number that excludes zero. -/
theorem For.operands (h : use.For allow t) :
    use = ⟨.add, none, .string⟩ ∨
    ∃ kind, use.kind? = some kind ∧ use.op.On kind ∧
      (use.right = .primitive (if use.op.isShift then .int else kind) ∧
        use.isGuarded allow = false ∨
       use.right = .nonzeroInt ∧ use.op.isShift = false ∧ kind ∈ [Kind.int, .long]) := by
  cases h with
  | text => exact .inl rfl
  | @comparison op kind member kinds =>
    have plain : op.isShift = false ∧ op.isDivision = false := by
      revert op
      decide
    have numeric : kind.isNumeric = true := by
      revert kind
      decide
    refine .inr ⟨kind, rfl, .comparison member numeric, .inl ?_⟩
    simp [isGuarded, plain]
  | @logical op member =>
    have plain : op.isShift = false ∧ op.isDivision = false := by
      revert op
      decide
    refine .inr ⟨.boolean, rfl, .logical member, .inl ?_⟩
    simp [isGuarded, plain]
  | @numeric op k notBoolean member =>
    have on : op.On (computedKind k) := by
      rcases List.mem_append.1 member with arithmetic | integral
      · exact .arithmetic arithmetic (computedKind_mem k)
      · split at integral
        · next isIntegral => exact .integral integral (computedKind_mem_of_isIntegral isIntegral)
        · contradiction
    refine .inr ⟨computedKind k, rfl, on, ?_⟩
    unfold rightType
    by_cases guarded : (op.isDivision && (computedKind k).isIntegral && !allow) = true
    · rw [if_pos guarded]
      rw [Bool.and_eq_true, Bool.and_eq_true] at guarded
      refine .inr ⟨rfl, ?_, computedKind_mem_of_isIntegral guarded.1.2⟩
      have := guarded.1.1
      cases op <;> first | rfl | contradiction
    · rw [if_neg guarded]
      refine .inl ⟨?_, by simpa [isGuarded] using guarded⟩
      dsimp only
      split
      · rfl
      · rfl

/-- The place accepts the result, or the result is a number and is cast to another. -/
theorem For.result (h : use.For allow t) :
    t.accepts use.resultType = true ∨ t.isNumeric = true ∧ use.resultType.isNumeric = true := by
  cases h with
  | text => exact .inl (Ty.accepts_refl trivial)
  | @comparison op kind member kinds =>
    have isComparison : op.isComparison = true := by
      simpa [Operator.isComparison] using member
    refine .inl ?_
    unfold resultType
    dsimp only
    rw [if_pos isComparison]
    exact Ty.accepts_refl trivial
  | @logical op member =>
    refine .inl ?_
    unfold resultType
    dsimp only
    rw [ite_self]
    exact Ty.accepts_refl trivial
  | @numeric op k notBoolean member =>
    have notComparison : op.isComparison = false := by
      have : op ∈ Operator.arithmetic ++ Operator.integral := by
        rcases List.mem_append.1 member with arithmetic | integral
        · exact List.mem_append_left _ arithmetic
        · split at integral
          · exact List.mem_append_right _ integral
          · contradiction
      clear member
      revert op
      decide
    refine .inr ⟨?_, ?_⟩
    · cases k <;> first | rfl | contradiction
    · unfold resultType
      dsimp only
      rw [notComparison]
      cases k <;> rfl

theorem For.valued (h : use.For allow t) : use.leftType.Valued ∧ use.right.Valued := by
  constructor
  · unfold leftType
    split <;> trivial
  · rcases h.operands with rfl | ⟨kind, _, _, ⟨right, _⟩ | ⟨right, _⟩⟩
    · trivial
    · rw [right]
      trivial
    · rw [right]
      exact Ty.valued_nonzeroInt

theorem valued_resultType (use : OperatorUse) : use.resultType.Valued := by
  unfold resultType
  split
  · trivial
  · split <;> trivial

end Generator.OperatorUse
end JavaSmith
