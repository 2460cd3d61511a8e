import JavaSmith.Proofs.Additions
import JavaSmith.Proofs.Generators.Expressions

/-! How high expressions get. The levels left at a site bound the height of the trees made there, not one
to one: a level adds the cast of an operand, the operator and the cast of its result, and below the
last level a builder still takes arguments that have no parts of their own. -/
namespace JavaSmith

open Generator

/-- Trees of the expressions made here are lower than this. -/
def Context.heightLimit (c : Context) : Nat := 3 * c.exprLevels + 2

/-- The limit leaves room for one step above any expression made at the site or at one reached from
there. -/
def Site.Within (limit : Nat) (site : Site) : Prop := 3 * site.ctx.maxExprDepth + 3 ≤ limit

variable {limit n : Nat} {site : Site} {t : Ty} {p : Program}

theorem Site.Within.heightLimit_lt (within : site.Within limit) : site.ctx.heightLimit < limit := by
  simp only [Site.Within] at within
  simp only [Context.heightLimit, Context.exprLevels]
  omega

theorem Context.heightLimit_deeper {c : Context} (level : c.hasExprLevel = true) :
    c.deeper.heightLimit + 3 = c.heightLimit := by
  have positive := c.hasExprLevel_iff.1 level
  simp only [heightLimit, exprLevels_deeper]
  omega

namespace Builder

theorem adds_randomLiteral (t : Ty) (p : Program) : Adds limit (randomLiteral t) p fun _ _ => True := by
  cases t with
  | primitive k => exact Adds.lastDraw fun _ => trivial
  | restricted r =>
    apply Adds.draw
    intro drawn
    split
    · exact Adds.pure trivial
    · exact Adds.fail _
  | string =>
    apply Adds.draw
    intro drawn
    exact Adds.pure trivial
  | _ => exact Adds.fail _

theorem adds_build {b : Builder} {args : List ExprId} (low : ∀ o ∈ args, p.Low n o) :
    Adds limit (b.build args) p fun e p' => p'.Low (n + 1) e := by
  have constant (v : Value) (t : Ty) {q : Program} :
      Adds limit (Gen.constant v t) q fun e p' => p'.Low (n + 1) e :=
    adds_nodeUnless rfl (by simp [Node.operands])
  apply Adds.view
  split
  · exact Adds.fail _
  · unfold node
    cases b with
    | null t => exact constant .null t
    | literal t =>
      apply Adds.bind (adds_randomLiteral t p)
      intro v p' _ _
      exact constant v t
    | boxing k => exact adds_node rfl low
    | construct t params => exact adds_node rfl low
    | newArray t index => exact adds_nodeUnless rfl low
    | external op =>
      apply Adds.ite
      · exact fun _ => adds_node rfl low
      · intro onObject
        refine adds_node rfl ?_
        cases args with
        | nil => simp [Node.operands]
        | cons receiver rest => simpa [Node.operands] using low

end Builder

namespace Generator

/-! Expressions. -/

def ExprsLow (limit : Nat) (expr : ExprGen) : Prop :=
  ∀ site t p, site.Within limit →
    Adds limit (expr site t) p fun e p' => p'.Low site.ctx.heightLimit e

def ArgumentsLow (limit n : Nat) (argument : ArgumentGen) : Prop :=
  ∀ t forbidNull p, Adds limit (argument t forbidNull) p fun o p' => o.elim True (p'.Low n)

/-- Whatever its methods are made for, their own expressions are low. -/
def MethodsLow (limit : Nat) (newMethod : MethodGen) : Prop :=
  ∀ site caller wanted p, site.Within limit →
    Adds limit (newMethod site caller wanted) p fun _ _ => True

variable {sub : ExprGen} {given : ArgumentGen} {newMethod : MethodGen}

theorem argumentsLow (subs : ExprsLow limit sub) (within : site.Within limit) :
    ArgumentsLow limit (3 * site.ctx.exprLevels + 1) (argument sub site) := by
  intro t forbidNull p
  have room : 1 ≤ 3 * site.ctx.exprLevels + 1 := Nat.le_add_left 1 _
  apply Adds.drawDeclared
  rintro (_ | v)
  · apply Adds.ite
    · intro level
      have next : site.ctx.deeper.heightLimit + 3 = 3 * site.ctx.exprLevels + 2 :=
        Context.heightLimit_deeper level
      have inner : (site.deeper.withoutNull forbidNull).ctx.heightLimit = site.ctx.deeper.heightLimit :=
        congrArg (3 * · + 2) (site.deeper.exprLevels_withoutNull forbidNull)
      have within' : (site.deeper.withoutNull forbidNull).Within limit := by
        cases forbidNull <;> exact within
      apply Adds.bind (subs _ t p within')
      intro e p' _ low
      exact Adds.unlessHole (Adds.pure (low.mono (by omega)))
    · intro _
      apply Adds.draw
      rintro (_ | b)
      · exact Adds.pure trivial
      · apply Adds.bind (Builder.adds_build (n := 0) (by simp))
        intro e p' _ low
        exact Adds.pure (low.mono room)
  · apply Adds.bind (adds_leaf rfl rfl)
    intro e p' _ low
    exact Adds.pure (low.mono room)

theorem adds_arguments (each : ArgumentsLow limit n given) (forbidNull : Bool) (ts : List Ty)
    (p : Program) :
    Adds limit (arguments given forbidNull ts) p fun o p' =>
      o.elim True fun es => ∀ e ∈ es, p'.Low n e := by
  induction ts generalizing p with
  | nil =>
    apply Adds.pure
    simp
  | cons t rest ih =>
    apply Adds.bind (each t forbidNull p)
    rintro (_ | e) p' _ first
    · exact Adds.pure trivial
    · apply Adds.bind (ih p')
      rintro (_ | es) p'' grows others
      · exact Adds.pure trivial
      · apply Adds.pure
        intro o member
        rcases List.mem_cons.1 member with rfl | member
        · exact grows.low first
        · exact others o member

theorem adds_firstSatisfied (each : ArgumentsLow limit n given) (builders : List Builder)
    (p : Program) :
    Adds limit (firstSatisfied given builders) p fun o p' =>
      o.elim True fun found => ∀ e ∈ found.2, p'.Low n e := by
  induction builders generalizing p with
  | nil => exact Adds.pure trivial
  | cons b rest ih =>
    apply Adds.bind (adds_arguments each b.refusesNull b.parameters p)
    rintro (_ | args) p' _ low
    · exact ih p'
    · exact Adds.pure low

theorem adds_fromBuilders (each : ArgumentsLow limit n given) (site : Site) (t : Ty) (p : Program) :
    Adds limit (fromBuilders given site t) p fun e p' => p'.Low (n + 1) e := by
  apply Adds.bind (Adds.roll _)
  intro allowExternal p' _ _
  apply Adds.draw
  intro shuffled
  apply Adds.bind (adds_firstSatisfied each shuffled p')
  rintro (_ | ⟨b, args⟩) p'' _ low
  · exact adds_hole p''
  · apply Adds.ite
    · exact fun _ => Builder.adds_build low
    · exact fun _ => Adds.fail _

theorem adds_calledMethod (methods : MethodsLow limit newMethod) (within : site.Within limit)
    (caller : MethodId) (wanted : Option Ty) (p : Program) :
    Adds limit (calledMethod newMethod site caller wanted) p fun _ _ => True := by
  apply Adds.view
  apply Adds.view
  have rolled (count max : Nat) :
      Adds limit (if count < max then Gen.roll .methodProbability else pure false) p
        fun _ _ => True := by
    apply Adds.ite
    · exact fun _ => Adds.roll _
    · exact fun _ => Adds.pure trivial
  apply Adds.bind (rolled _ _)
  intro created p' _ _
  apply Adds.ite
  · intro _
    apply Adds.bind (methods site caller wanted p' within)
    intro m p'' _ _
    exact Adds.pure trivial
  · intro _
    apply Adds.drawDeclared
    rintro (_ | m)
    · exact Adds.pure trivial
    · apply Adds.bind (Adds.addCallEdge caller m)
      intro _ p'' _ _
      exact Adds.pure trivial

theorem adds_userCall (methods : MethodsLow limit newMethod) (within : site.Within limit)
    (each : ArgumentsLow limit n given) (wanted : Option Ty) (p : Program) :
    Adds limit (userCall newMethod given site wanted) p fun o p' =>
      o.elim True (p'.Low (n + 1)) := by
  unfold userCall
  cases site.ctx.method with
  | none => exact Adds.pure trivial
  | some caller =>
    apply Adds.bind (adds_calledMethod methods within caller wanted p)
    rintro (_ | m) p' _ _
    · exact Adds.pure trivial
    · apply Adds.view
      apply Adds.ite
      · exact fun _ => Adds.pure trivial
      · intro _
        apply Adds.bind (adds_arguments each false _ p')
        rintro (_ | args) p'' _ low
        · exact Adds.pure trivial
        · apply Adds.bind (adds_node rfl (by simpa [Node.operands] using low))
          intro e p''' _ made
          exact Adds.pure made

theorem adds_assignment (subs : ExprsLow limit sub) (within : site.Within limit) (t : Ty)
    (p : Program) :
    Adds limit (assignment sub site t) p fun o p' =>
      o.elim True (p'.Low (site.ctx.deeper.heightLimit + 1)) := by
  apply Adds.drawDeclared
  rintro (_ | v)
  · exact Adds.pure trivial
  · apply Adds.view
    apply Adds.bind (subs site.deeper _ p within)
    intro source p' _ low
    apply Adds.unlessHole
    apply Adds.bind (adds_assign low)
    intro e p'' _ made
    exact Adds.pure made

theorem adds_reuse (site : Site) (t : Ty) (p : Program) :
    Adds limit (reuse site t) p fun o p' => o.elim True (p'.Low 1) := by
  apply Adds.drawDeclared
  rintro (_ | v)
  · exact Adds.pure trivial
  · apply Adds.bind (adds_leaf rfl rfl)
    intro e p' _ made
    exact Adds.pure made

theorem adds_coerce {e : ExprId} (low : p.Low n e) (kind : Kind) :
    Adds limit (coerce e kind) p fun e' p' => p'.Low (n + 1) e' := by
  apply Adds.view
  apply Adds.ite
  · exact fun _ => Adds.pure (low.mono (Nat.le_succ n))
  · exact fun _ => adds_node rfl (List.forall_mem_singleton.2 low)

theorem adds_coerceOperands {left right : ExprId} (use : OperatorUse) (low : p.Low n left)
    (low' : p.Low n right) :
    Adds limit (coerceOperands use left right) p fun operands p' =>
      p'.Low (n + 1) operands.1 ∧ p'.Low (n + 1) operands.2 := by
  unfold coerceOperands
  cases use.kind? with
  | none => exact Adds.pure ⟨low.mono (Nat.le_succ n), low'.mono (Nat.le_succ n)⟩
  | some kind =>
    apply Adds.bind (adds_coerce low kind)
    intro left p' grows made
    apply Adds.bind (adds_coerce (grows.low low') _)
    intro right p'' grows' made'
    exact Adds.pure ⟨grows'.low made, made'⟩

theorem adds_applyOperator {left right : ExprId} (site : Site) (use : OperatorUse) (t : Ty)
    (low : p.Low n left) (low' : p.Low n right) :
    Adds limit (applyOperator site use t left right) p fun e p' => p'.Low (n + 3) e := by
  apply Adds.bind (adds_coerceOperands use low low')
  rintro ⟨left, right⟩ p' _ ⟨made, made'⟩
  apply Adds.view
  apply Adds.ite
  · exact fun _ => Adds.fail _
  · intro _
    apply Adds.bind (adds_node rfl (by simpa [Node.operands] using ⟨made, made'⟩))
    intro e p'' _ result
    apply Adds.ite
    · exact fun _ => Adds.pure (result.mono (Nat.le_succ _))
    · exact fun _ => adds_node rfl (List.forall_mem_singleton.2 result)

theorem adds_binaryOp (subs : ExprsLow limit sub) (within : site.Within limit) (t : Ty)
    (p : Program) :
    Adds limit (binaryOp sub site t) p fun e p' => p'.Low (site.ctx.deeper.heightLimit + 3) e := by
  apply Adds.draw
  rintro (_ | use)
  · exact adds_hole p
  · apply Adds.bind (subs site.deeper _ p within)
    intro left p' _ low
    apply Adds.bind (subs site.deeper _ p' within)
    intro right p'' grows low'
    apply Adds.view
    apply Adds.view
    apply Adds.ite
    · exact fun _ => adds_hole p''
    · exact fun _ => adds_applyOperator site use t (grows.low low) low'

theorem adds_castFrom (subs : ExprsLow limit sub) (within : site.Within limit) (t : Ty)
    (p : Program) :
    Adds limit (castFrom sub site t) p fun e p' => p'.Low (site.ctx.deeper.heightLimit + 1) e := by
  apply Adds.draw
  intro source
  apply Adds.bind (subs site.deeper _ p within)
  intro operand p' _ low
  apply Adds.view
  apply Adds.ite
  · exact fun _ => Adds.pure (low.mono (Nat.le_succ _))
  · exact fun _ => adds_node rfl (List.forall_mem_singleton.2 low)

/-! What is tried. Whoever declines has still added to the class. -/

section Attempts

variable {α : Type} {R : Program → α → Prop}

theorem adds_attempt {allowed : Bool} {roll : Gen Bool} {make : Gen (Option α)}
    (rolled : Adds limit roll p fun _ _ => True)
    (made : allowed = true → ∀ p, Adds limit make p fun o p' => o.elim True (R p')) :
    Adds limit (attempt allowed roll make) p fun o p' => o.elim True (R p') := by
  unfold attempt
  cases allowed with
  | false => exact Adds.pure trivial
  | true =>
    apply Adds.bind rolled
    rintro (_ | _) p' _ _
    · exact Adds.pure trivial
    · exact made rfl p'

theorem adds_firstOf {attempts : List (Gen (Option α))}
    (each : ∀ a ∈ attempts, ∀ p, Adds limit a p fun o p' => o.elim True (R p')) (p : Program) :
    Adds limit (firstOf attempts) p fun o p' => o.elim True (R p') := by
  induction attempts generalizing p with
  | nil => exact Adds.pure trivial
  | cons first rest ih =>
    apply Adds.bind (each first List.mem_cons_self p)
    rintro (_ | a) p' _ outcome
    · exact ih (fun a member => each a (List.mem_cons_of_mem first member)) p'
    · exact Adds.pure outcome

end Attempts

theorem adds_valued {x : Gen ExprId} (made : Adds limit x p fun e p' => p'.Low n e) :
    Adds limit (x >>= valued) p fun o p' => o.elim True (p'.Low n) := by
  apply Adds.bind made
  intro e p' _ low
  exact Adds.unlessHole (Adds.pure low)

theorem adds_attempts (methods : MethodsLow limit newMethod) (subs : ExprsLow limit sub)
    (within : site.Within limit) (t : Ty) :
    ∀ a ∈ attempts (userCall newMethod (argument sub site) site (some t)) (binaryOp sub site t)
        (castFrom sub site t) sub site t,
      ∀ p, Adds limit a p fun o p' => o.elim True (p'.Low site.ctx.heightLimit) := by
  intro a member p
  unfold attempts at member
  dsimp only at member
  rcases List.mem_cons.1 member with rfl | member
  · apply adds_attempt (Adds.roll _)
    intro _ p
    exact (adds_reuse site t p).lower (Nat.le_add_left 1 _)
  · split at member
    · next level =>
      have next := Context.heightLimit_deeper level
      simp only [List.mem_cons, List.not_mem_nil, or_false] at member
      rcases member with rfl | rfl | rfl | rfl
      · apply adds_attempt (Adds.roll _)
        intro _ p
        exact adds_userCall methods within (argumentsLow subs within) _ p
      · apply adds_attempt
        · apply Adds.view
          exact Adds.lastDraw fun _ => trivial
        · intro _ p
          exact (adds_assignment subs within t p).lower (by omega)
      · apply adds_attempt (Adds.roll _)
        intro _ p
        exact (adds_valued (adds_binaryOp subs within t p)).lower (by omega)
      · apply adds_attempt (Adds.roll _)
        intro _ p
        exact (adds_valued (adds_castFrom subs within t p)).lower (by omega)
    · contradiction

theorem exprsLow_exprStep (methods : MethodsLow limit newMethod) (subs : ExprsLow limit sub) :
    ExprsLow limit (exprStep newMethod sub) := by
  intro site t p within
  have each := argumentsLow subs within
  apply Adds.ite
  · exact fun _ => adds_hole p
  · intro _
    apply Adds.bind (adds_firstOf (adds_attempts methods subs within t) p)
    rintro (_ | e) p' _ low
    · exact adds_fromBuilders each site t p'
    · exact Adds.pure low

/-- Where the ladder ends, no operand is made. -/
theorem exprsLow_exprAt (methods : MethodsLow limit newMethod) (levels : Nat) :
    ExprsLow limit (exprAt newMethod levels) := by
  induction levels with
  | zero => exact exprsLow_exprStep methods fun _ _ _ _ => Adds.fail _
  | succ levels ih => exact exprsLow_exprStep methods ih

theorem exprsLow (methods : MethodsLow limit newMethod) : ExprsLow limit (expr newMethod) :=
  fun site => exprsLow_exprAt methods site.ctx.exprLevels site

end Generator
end JavaSmith
