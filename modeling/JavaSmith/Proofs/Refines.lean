import Mathlib.Data.List.Forall2
import JavaSmith.Proofs.Generators.Blocks

/-! Generators that do the same as others wherever these succeed. A generator that is handed others does
so with them, which is shown for one generator after the other; hence the heights of the ladders
decide only how far generation can go, not what is generated. -/
namespace JavaSmith

/-- Where the first generator succeeds, the second one does the same. -/
def Refines {α : Type} (x y : Gen α) : Prop := ∀ s a s', x s = .ok a s' → y s = .ok a s'

namespace Refines

variable {α β : Type} {x y z : Gen α}

theorem refl (x : Gen α) : Refines x x := fun _ _ _ => id

theorem of_eq (same : x = y) : Refines x y := same ▸ refl x

theorem trans (h : Refines x y) (h' : Refines y z) : Refines x z :=
  fun s a s' done => h' s a s' (h s a s' done)

theorem fail (b : Breach) (x : Gen α) : Refines (Gen.fail b) x := fun _ _ _ done => by contradiction

theorem bind {f g : α → Gen β} (h : Refines x y) (h' : ∀ a, Refines (f a) (g a)) :
    Refines (x >>= f) (y >>= g) := by
  intro s b s'' done
  change EStateM.bind x f s = _ at done
  change EStateM.bind y g s = _
  unfold EStateM.bind at done ⊢
  cases first : x s with
  | error fault s' =>
    rw [first] at done
    contradiction
  | ok a s' =>
    rw [first] at done
    rw [h s a s' first]
    exact h' a s' b s'' done

theorem bindLeft {f : α → Gen β} (h : Refines x y) : Refines (x >>= f) (y >>= f) :=
  bind h fun a => refl (f a)

theorem bindRight {f g : α → Gen β} (h : ∀ a, Refines (f a) (g a)) : Refines (x >>= f) (x >>= g) :=
  bind (refl x) h

theorem ite {condition : Prop} [Decidable condition] (h : condition → Refines x y) :
    Refines (if condition then x else z) (if condition then y else z) := by
  split
  · next holds => exact h holds
  · exact refl z

theorem either {condition : Prop} [Decidable condition] {f g : α → Gen β}
    (h : ∀ a, Refines (f a) (g a)) :
    Refines (if condition then x >>= f else y >>= f) (if condition then x >>= g else y >>= g) := by
  split
  · exact bindRight h
  · exact bindRight h

end Refines

namespace Generator

open Refines

variable {site : Site} {t : Ty}

/-! Expressions. Operands are made one level down. -/

def OperandsRefine (site : Site) (sub sub' : ExprGen) : Prop :=
  ∀ inner t, inner.ctx.exprLevels = site.ctx.exprLevels - 1 →
    Refines (sub inner t) (sub' inner t)

variable {sub sub' : ExprGen} {given given' : ArgumentGen} {newMethod newMethod' : MethodGen}

theorem refines_argument (forbidNull : Bool)
    (operands : site.ctx.hasExprLevel = true → OperandsRefine site sub sub') :
    Refines (argument sub site t forbidNull) (argument sub' site t forbidNull) := by
  refine bindRight fun found => ?_
  cases found with
  | some v => exact refl _
  | none =>
    refine ite fun level => ?_
    refine bindLeft (operands level _ t ?_)
    cases forbidNull <;> exact site.ctx.exprLevels_deeper

theorem refines_arguments {forbidNull : Bool}
    (each : ∀ t, Refines (given t forbidNull) (given' t forbidNull)) (ts : List Ty) :
    Refines (arguments given forbidNull ts) (arguments given' forbidNull ts) := by
  induction ts with
  | nil => exact refl _
  | cons t rest ih =>
    refine bind (each t) fun first => ?_
    cases first with
    | none => exact refl _
    | some e => exact bindLeft ih

theorem refines_firstSatisfied (each : ∀ t b, Refines (given t b) (given' t b))
    (builders : List Builder) :
    Refines (firstSatisfied given builders) (firstSatisfied given' builders) := by
  induction builders with
  | nil => exact refl _
  | cons b rest ih =>
    refine bind (refines_arguments (fun t => each t b.refusesNull) _) fun args => ?_
    cases args with
    | none => exact ih
    | some es => exact refl _

theorem refines_fromBuilders (each : ∀ t b, Refines (given t b) (given' t b)) :
    Refines (fromBuilders given site t) (fromBuilders given' site t) := by
  refine bindRight fun allowExternal => ?_
  refine bindRight fun shuffled => ?_
  exact bindLeft (refines_firstSatisfied each shuffled)

theorem refines_calledMethod {caller : MethodId} {wanted : Option Ty}
    (method : Refines (newMethod site caller wanted) (newMethod' site caller wanted)) :
    Refines (calledMethod newMethod site caller wanted)
      (calledMethod newMethod' site caller wanted) := by
  refine bindRight fun maxMethods => ?_
  refine bindRight fun count => ?_
  refine bindRight fun created => ?_
  exact ite fun _ => bindLeft method

theorem refines_userCall {wanted : Option Ty}
    (method : ∀ caller, Refines (newMethod site caller wanted) (newMethod' site caller wanted))
    (each : ∀ t, Refines (given t false) (given' t false)) :
    Refines (userCall newMethod given site wanted) (userCall newMethod' given' site wanted) := by
  unfold userCall
  cases site.ctx.method with
  | none => exact refl _
  | some caller =>
    refine bind (refines_calledMethod (method caller)) fun callee => ?_
    cases callee with
    | none => exact refl _
    | some m =>
      refine bindRight fun record => ?_
      split
      · exact refl _
      · exact bindLeft (refines_arguments each _)

theorem refines_assignment (operands : OperandsRefine site sub sub') :
    Refines (assignment sub site t) (assignment sub' site t) := by
  refine bindRight fun found => ?_
  cases found with
  | none => exact refl _
  | some v =>
    refine bindRight fun target => ?_
    exact bindLeft (operands _ _ site.ctx.exprLevels_deeper)

theorem refines_binaryOp (operands : OperandsRefine site sub sub') :
    Refines (binaryOp sub site t) (binaryOp sub' site t) := by
  have next := site.ctx.exprLevels_deeper
  refine bindRight fun use => ?_
  cases use with
  | none => exact refl _
  | some use =>
    refine bind (operands _ _ next) fun left => ?_
    exact bindLeft (operands _ _ next)

theorem refines_castFrom (operands : OperandsRefine site sub sub') :
    Refines (castFrom sub site t) (castFrom sub' site t) := by
  refine bindRight fun source => ?_
  exact bindLeft (operands _ _ site.ctx.exprLevels_deeper)

theorem refines_attempt {α : Type} {allowed : Bool} {roll : Gen Bool} {make make' : Gen (Option α)}
    (h : allowed = true → Refines make make') :
    Refines (attempt allowed roll make) (attempt allowed roll make') := by
  unfold attempt
  cases allowed with
  | false => exact refl _
  | true => exact bindRight fun rolled => ite fun _ => h rfl

theorem refines_firstOf {α : Type} {xs ys : List (Gen (Option α))} (h : List.Forall₂ Refines xs ys) :
    Refines (firstOf xs) (firstOf ys) := by
  induction h with
  | nil => exact refl _
  | cons first _ ih =>
    refine bind first fun found => ?_
    cases found with
    | none => exact ih
    | some a => exact refl _

theorem refines_choice {call call' : Gen (Option ExprId)}
    {operator operator' cast cast' builders builders' : Gen ExprId} (calls : Refines call call')
    (operators : site.ctx.hasExprLevel = true → Refines operator operator')
    (casts : site.ctx.hasExprLevel = true → Refines cast cast') (built : Refines builders builders')
    (operands : site.ctx.hasExprLevel = true → OperandsRefine site sub sub') :
    Refines (choice call operator cast builders sub site t)
      (choice call' operator' cast' builders' sub' site t) := by
  unfold choice
  split
  · exact refl _
  · refine bind (refines_firstOf ?_) fun found => ?_
    · refine .cons (refl _) ?_
      split
      · next level =>
        refine .cons (refines_attempt fun _ => calls) ?_
        refine .cons (refines_attempt fun _ => refines_assignment (operands level)) ?_
        refine .cons (refines_attempt fun _ => bindLeft (operators level)) ?_
        exact .cons (refines_attempt fun _ => bindLeft (casts level)) .nil
      · exact .nil
    · cases found with
      | none => exact built
      | some e => exact refl _

theorem refines_exprStep (methods : ∀ site caller wanted,
      Refines (newMethod site caller wanted) (newMethod' site caller wanted))
    (operands : site.ctx.hasExprLevel = true → OperandsRefine site sub sub') :
    Refines (exprStep newMethod sub site t) (exprStep newMethod' sub' site t) := by
  have each (t : Ty) (b : Bool) : Refines (argument sub site t b) (argument sub' site t b) :=
    refines_argument b operands
  refine refines_choice ?_ (fun level => refines_binaryOp (operands level))
    (fun level => refines_castFrom (operands level)) ?_ operands
  · exact refines_userCall (fun caller => methods site caller _) fun t => each t false
  · exact refines_fromBuilders each

theorem refines_exprAt (methods : ∀ site caller wanted,
      Refines (newMethod site caller wanted) (newMethod' site caller wanted)) (levels : Nat)
    (site : Site) (t : Ty) :
    Refines (exprAt newMethod levels site t) (exprAt newMethod' levels site t) := by
  induction levels generalizing site t with
  | zero => exact refines_exprStep methods fun _ _ _ _ => refl _
  | succ levels ih => exact refines_exprStep methods fun _ inner t _ => ih inner t

/-! Statements and blocks. -/

variable {parts parts' : Parts} {nested nested' : BlockGen}

/-- Both parts are made by the second generators as by the first ones. -/
structure Parts.Refine (parts parts' : Parts) : Prop where
  expr : ∀ site t, Refines (parts.expr site t) (parts'.expr site t)
  method : ∀ site caller wanted,
    Refines (parts.newMethod site caller wanted) (parts'.newMethod site caller wanted)

def BlocksRefine (site : Site) (nested nested' : BlockGen) : Prop :=
  ∀ inner length, inner.ctx.blockLevels = site.ctx.blockLevels - 1 →
    Refines (nested inner length) (nested' inner length)

theorem refines_print (h : parts.Refine parts') :
    Refines (print parts site) (print parts' site) :=
  bindRight fun t => bindLeft (h.expr site t)

theorem refines_assignmentStatement (h : parts.Refine parts') :
    Refines (assignmentStatement parts site) (assignmentStatement parts' site) := by
  refine bindRight fun found => ?_
  cases found with
  | none => exact refl _
  | some v => exact bindRight fun t => bindLeft (h.expr site t)

theorem refines_callStatement {call call' : Gen (Option ExprId)} (calls : Refines call call') :
    Refines (callStatement call) (callStatement call') :=
  bindLeft calls

theorem refines_localDeclaration (h : parts.Refine parts') :
    Refines (localDeclaration parts site) (localDeclaration parts' site) :=
  bindRight fun t => bindLeft (h.expr site t)

theorem refines_fieldDeclaration (h : parts.Refine parts') :
    Refines (fieldDeclaration parts site) (fieldDeclaration parts' site) := by
  refine either fun isStatic => ?_
  refine bindRight fun isFinal => ?_
  exact bindRight fun t => bindLeft (h.expr _ t)

theorem refines_place {call call' : Gen (Option ExprId)} {flow flow' : Gen (Option Block)}
    (h : parts.Refine parts') (calls : Refines call call')
    (flows : site.ctx.hasBlockLevel = true → Refines flow flow') :
    Refines (place parts call flow site) (place parts' call' flow' site) := by
  refine bindLeft (refines_firstOf ?_)
  refine .cons (refines_attempt fun _ => refines_print h) ?_
  refine .cons (refines_attempt fun _ => refines_assignmentStatement h) ?_
  refine .cons (refines_attempt fun _ => refines_callStatement calls) ?_
  refine .cons (refines_attempt fun _ => refines_localDeclaration h) ?_
  refine .cons (refines_attempt fun _ => refines_fieldDeclaration h) ?_
  exact .cons (refines_attempt flows) .nil

theorem refines_nested {inner : Site} {f : Block → Gen (Option Block)}
    (blocks : BlocksRefine site nested nested')
    (next : inner.ctx.blockLevels = site.ctx.blockLevels - 1) :
    Refines (nestedLength >>= fun length => nested inner length >>= f)
      (nestedLength >>= fun length => nested' inner length >>= f) :=
  bindRight fun length => bindLeft (blocks inner length next)

theorem refines_branch (h : parts.Refine parts')
    (blocks : BlocksRefine site nested nested') :
    Refines (branch parts nested site) (branch parts' nested' site) := by
  have next := site.ctx.blockLevels_enterBranch
  refine bind (h.expr site _) fun condition => ?_
  refine bindRight fun hole => ?_
  split
  · exact refl _
  · refine bindRight fun length => ?_
    refine bind (blocks _ length next) fun body => ?_
    refine bindRight fun rolled => ?_
    exact ite fun _ => refines_nested blocks next

theorem refines_loop {kind : LoopKind} (blocks : BlocksRefine site nested nested') :
    Refines (loop kind nested site) (loop kind nested' site) := by
  refine bindRight fun maxIterations => ?_
  refine bindRight fun bound => ?_
  refine bindRight fun counter => ?_
  exact refines_nested blocks (site.ctx.blockLevels_enterLoop maxIterations)

theorem refines_controlFlow (h : parts.Refine parts')
    (blocks : BlocksRefine site nested nested') :
    Refines (controlFlow parts nested site) (controlFlow parts' nested' site) := by
  refine bindRight fun knobs => ?_
  refine bindRight fun flow => ?_
  cases flow with
  | none => exact refl _
  | some flow =>
    cases flow with
    | branch => exact refines_branch h blocks
    | loop kind => exact refines_loop blocks

theorem refines_statement (h : parts.Refine parts')
    (blocks : site.ctx.hasBlockLevel = true → BlocksRefine site nested nested') :
    Refines (statement parts nested site) (statement parts' nested' site) := by
  refine refines_place h ?_ fun level => refines_controlFlow h (blocks level)
  refine refines_userCall (fun caller => h.method site caller none) fun t => ?_
  exact refines_argument false fun _ inner t _ => h.expr inner t

theorem refines_blockStep (h : parts.Refine parts') (length : Nat)
    (blocks : site.ctx.hasBlockLevel = true → BlocksRefine site nested nested') :
    Refines (blockStep parts nested site length) (blockStep parts' nested' site length) := by
  induction length generalizing site with
  | zero => exact refl _
  | succ length ih =>
    have first : Refines (statement parts nested site.atStatement)
        (statement parts' nested' site.atStatement) :=
      refines_statement h blocks
    refine bind first fun statements => ?_
    exact bindLeft (ih blocks)

theorem refines_blockAt (h : parts.Refine parts') (levels : Nat) (site : Site) (length : Nat) :
    Refines (blockAt parts levels site length) (blockAt parts' levels site length) := by
  induction levels generalizing site length with
  | zero => exact refines_blockStep h length fun _ _ _ _ => refl _
  | succ levels ih => exact refines_blockStep h length fun _ inner length _ => ih inner length

/-! Methods. -/

theorem refines_methodStep {block block' : BlockGen} {expr expr' : ExprGen} {caller : MethodId}
    {wanted : Option Ty} (blocks : ∀ site length, Refines (block site length) (block' site length))
    (exprs : ∀ site t, Refines (expr site t) (expr' site t)) :
    Refines (methodStep block expr site caller wanted) (methodStep block' expr' site caller wanted) := by
  have ended (site : Site) (returns : Ty) :
      Refines (ending expr site returns) (ending expr' site returns) := by
    unfold ending
    split
    · exact refl _
    · exact bindLeft (exprs _ returns)
  have body (site : Site) (length : Nat) (returns : Ty) :
      Refines (methodBody block expr site length returns)
        (methodBody block' expr' site length returns) :=
    bind (blocks site length) fun statements => bindLeft (ended _ returns)
  refine either fun isStatic => ?_
  refine bindRight fun maxParameters => ?_
  refine bindRight fun arity => ?_
  refine bindRight fun params => ?_
  refine bindRight fun returns => ?_
  refine bindRight fun m => ?_
  refine bindRight fun _ => ?_
  refine bindRight fun locals => ?_
  refine bindRight fun maxLength => ?_
  refine bindRight fun length => ?_
  exact bindLeft (body _ length returns)

theorem Parts.refine_partsOf (methods : ∀ site caller wanted,
      Refines (newMethod site caller wanted) (newMethod' site caller wanted)) :
    (partsOf newMethod).Refine (partsOf newMethod') where
  expr site t := refines_exprAt methods site.ctx.exprLevels site t
  method := methods

/-- A higher ladder of methods goes as far as a lower one. -/
theorem refines_methodAt {n n' : Nat} (le : n ≤ n') (site : Site) (caller : MethodId)
    (wanted : Option Ty) : Refines (methodAt n site caller wanted) (methodAt n' site caller wanted) := by
  induction n generalizing n' site caller wanted with
  | zero => exact fail _ _
  | succ n ih =>
    obtain ⟨n', rfl⟩ := Nat.exists_eq_add_of_le' (Nat.le_trans (Nat.succ_pos n) le)
    have methods := fun site caller wanted => ih (Nat.le_of_succ_le_succ le) site caller wanted
    exact refines_methodStep
      (fun site length => refines_blockAt (Parts.refine_partsOf methods) site.ctx.blockLevels site length)
      fun site t => refines_exprAt methods site.ctx.exprLevels site t

/-! A ladder does what its step does with the ladder itself, since each level counts what is below it. -/

theorem refines_step_expr (newMethod : MethodGen) (site : Site) (t : Ty) :
    Refines (exprStep newMethod (expr newMethod) site t) (expr newMethod site t) := by
  have methods (site : Site) (caller : MethodId) (wanted : Option Ty) :=
    refl (newMethod site caller wanted)
  unfold expr
  cases left : site.ctx.exprLevels with
  | zero =>
    refine refines_exprStep methods fun level => ?_
    have := site.ctx.hasExprLevel_iff.1 level
    omega
  | succ levels =>
    refine refines_exprStep methods fun _ inner t next => of_eq ?_
    have next : inner.ctx.exprLevels = levels := by omega
    exact next ▸ rfl

theorem refines_step_block (parts : Parts) (site : Site) (length : Nat) :
    Refines
      (do
        let first ← statement parts (block parts) site.atStatement
        let rest ← block parts (site.afterBlock first) length
        return first ++ rest)
      (block parts site (length + 1)) := by
  have same : parts.Refine parts := ⟨fun _ _ => refl _, fun _ _ _ => refl _⟩
  have levels : site.atStatement.ctx.blockLevels = site.ctx.blockLevels := rfl
  unfold block
  cases left : site.ctx.blockLevels with
  | zero =>
    refine bind (refines_statement same fun level => ?_) fun first => ?_
    · have := site.atStatement.ctx.hasBlockLevel_iff.1 level
      omega
    · exact bindLeft (of_eq (left ▸ rfl))
  | succ n =>
    refine bind (refines_statement same fun _ inner length next => of_eq ?_) fun first => ?_
    · have next : inner.ctx.blockLevels = n := by omega
      exact next ▸ rfl
    · exact bindLeft (of_eq (left ▸ rfl))

end Generator
end JavaSmith
