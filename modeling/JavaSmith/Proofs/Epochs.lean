import JavaSmith.Generate

/-! Generators see nothing of the epoch of a catalog. A generator that is made of others has this from
them, so it is climbed with them from level to level, over expressions, blocks and methods. -/
namespace JavaSmith

def Catalog.atEpoch (c : Catalog) (n : Nat) : Catalog := { c with epoch := n }

def Site.atEpoch (site : Site) (n : Nat) : Site := { site with catalog := site.catalog.atEpoch n }

/-- What is generated at a site is the same in every epoch. -/
def IgnoresEpoch {α : Type} (f : Site → α) : Prop := ∀ site n, f (site.atEpoch n) = f site

theorem ignoresEpoch_const {α : Type} (a : α) : IgnoresEpoch fun _ => a := fun _ _ => rfl

theorem IgnoresEpoch.lift {α β : Type} {f : Site → α} {F : (Site → α) → Site → β}
    (ignores : IgnoresEpoch f)
    (natural : ∀ f site n, F f (site.atEpoch n) = F (fun site => f (site.atEpoch n)) site) :
    IgnoresEpoch (F f) := by
  intro site n
  have same : (fun site => f (site.atEpoch n)) = f := funext fun site => ignores site n
  rw [natural, same]

theorem IgnoresEpoch.lift₂ {α β γ : Type} {f : Site → α} {g : Site → γ}
    {F : (Site → α) → (Site → γ) → Site → β} (ignores : IgnoresEpoch f) (ignores' : IgnoresEpoch g)
    (natural : ∀ f g site n, F f g (site.atEpoch n) =
      F (fun site => f (site.atEpoch n)) (fun site => g (site.atEpoch n)) site) :
    IgnoresEpoch (F f g) := by
  intro site n
  have first : (fun site => f (site.atEpoch n)) = f := funext fun site => ignores site n
  have second : (fun site => g (site.atEpoch n)) = g := funext fun site => ignores' site n
  rw [natural, first, second]

namespace Generator

section Expressions

variable {newMethod : MethodGen} {sub : ExprGen}

theorem ignoresEpoch_argument (expr : IgnoresEpoch sub) : IgnoresEpoch (argument sub) :=
  expr.lift fun f site n => by
    funext t forbidNull
    cases forbidNull <;> rfl

theorem ignoresEpoch_calledMethod (method : IgnoresEpoch newMethod) :
    IgnoresEpoch (calledMethod newMethod) :=
  method.lift fun _ _ _ => rfl

theorem ignoresEpoch_userCall (method : IgnoresEpoch newMethod) (expr : IgnoresEpoch sub) :
    IgnoresEpoch fun site => userCall newMethod (argument sub site) site := by
  intro site n
  dsimp only
  rw [ignoresEpoch_argument expr site n]
  unfold userCall
  rw [ignoresEpoch_calledMethod method site n]
  rfl

theorem ignoresEpoch_fromBuilders (expr : IgnoresEpoch sub) :
    IgnoresEpoch fun site => fromBuilders (argument sub site) site := by
  intro site n
  dsimp only
  rw [ignoresEpoch_argument expr site n]
  rfl

theorem ignoresEpoch_assignment (expr : IgnoresEpoch sub) : IgnoresEpoch (assignment sub) :=
  expr.lift fun _ _ _ => rfl

theorem ignoresEpoch_binaryOp (expr : IgnoresEpoch sub) : IgnoresEpoch (binaryOp sub) :=
  expr.lift fun _ _ _ => rfl

theorem ignoresEpoch_castFrom (expr : IgnoresEpoch sub) : IgnoresEpoch (castFrom sub) :=
  expr.lift fun _ _ _ => rfl

theorem ignoresEpoch_exprStep (method : IgnoresEpoch newMethod) (expr : IgnoresEpoch sub) :
    IgnoresEpoch (exprStep newMethod sub) := by
  intro site n
  funext t
  have call := congrFun (ignoresEpoch_userCall method expr site n) (some t)
  have builders := congrFun (ignoresEpoch_fromBuilders expr site n) t
  dsimp only at call builders
  unfold exprStep choice attempts
  rw [call, builders, ignoresEpoch_assignment expr site n, ignoresEpoch_binaryOp expr site n,
    ignoresEpoch_castFrom expr site n]
  rfl

theorem ignoresEpoch_exprAt (method : IgnoresEpoch newMethod) (levels : Nat) :
    IgnoresEpoch (exprAt newMethod levels) := by
  induction levels with
  | zero => exact ignoresEpoch_exprStep method (ignoresEpoch_const _)
  | succ levels ih => exact ignoresEpoch_exprStep method ih

theorem ignoresEpoch_expr (method : IgnoresEpoch newMethod) : IgnoresEpoch (expr newMethod) :=
  fun site n => ignoresEpoch_exprAt method site.ctx.exprLevels site n

end Expressions

structure Parts.IgnoreEpoch (parts : Parts) : Prop where
  expr : IgnoresEpoch parts.expr
  newMethod : IgnoresEpoch parts.newMethod

section Statements

variable {parts : Parts} (ignore : parts.IgnoreEpoch)
include ignore

theorem ignoresEpoch_print : IgnoresEpoch (print parts) :=
  ignore.expr.lift (F := fun expr => print { parts with expr }) fun _ _ _ => rfl

theorem ignoresEpoch_assignmentStatement : IgnoresEpoch (assignmentStatement parts) :=
  ignore.expr.lift (F := fun expr => assignmentStatement { parts with expr }) fun _ _ _ => rfl

theorem ignoresEpoch_localDeclaration : IgnoresEpoch (localDeclaration parts) :=
  ignore.expr.lift (F := fun expr => localDeclaration { parts with expr }) fun _ _ _ => rfl

theorem ignoresEpoch_fieldDeclaration : IgnoresEpoch (fieldDeclaration parts) :=
  ignore.expr.lift (F := fun expr => fieldDeclaration { parts with expr }) fun _ _ _ => rfl

end Statements

section Blocks

variable {parts : Parts} {nested : BlockGen} (ignore : parts.IgnoreEpoch)
  (block : IgnoresEpoch nested)
include block

theorem ignoresEpoch_loop (kind : LoopKind) : IgnoresEpoch (loop kind nested) :=
  block.lift fun _ _ _ => rfl

include ignore

theorem ignoresEpoch_branch : IgnoresEpoch (branch parts nested) :=
  ignore.expr.lift₂ block (F := fun expr => branch { parts with expr }) fun _ _ _ _ => rfl

theorem ignoresEpoch_controlFlow : IgnoresEpoch (controlFlow parts nested) := by
  intro site n
  unfold controlFlow
  simp only [ignoresEpoch_branch ignore block site n, ignoresEpoch_loop block _ site n]
  rfl

theorem ignoresEpoch_statement : IgnoresEpoch (statement parts nested) := by
  intro site n
  have call := congrFun (ignoresEpoch_userCall ignore.newMethod ignore.expr site n) none
  dsimp only at call
  unfold statement place cascade
  rw [call, ignoresEpoch_print ignore site n, ignoresEpoch_assignmentStatement ignore site n,
    ignoresEpoch_localDeclaration ignore site n, ignoresEpoch_fieldDeclaration ignore site n,
    ignoresEpoch_controlFlow ignore block site n]
  rfl

theorem ignoresEpoch_blockStep : IgnoresEpoch (blockStep parts nested) := by
  intro site n
  funext count
  induction count generalizing site with
  | zero => rfl
  | succ count ih =>
    have first : statement parts nested (site.atEpoch n).atStatement =
        statement parts nested site.atStatement :=
      ignoresEpoch_statement ignore block site.atStatement n
    have rest (scope : Scope) :
        blockStep parts nested { site.atEpoch n with scope } count =
          blockStep parts nested { site with scope } count :=
      ih { site with scope }
    simp only [blockStep, first]
    exact congrArg _ (funext fun statements => congrArg (· >>= _) (rest _))

end Blocks

section Methods

variable {parts : Parts} {newMethod : MethodGen}

theorem ignoresEpoch_blockAt (ignore : parts.IgnoreEpoch) (levels : Nat) :
    IgnoresEpoch (blockAt parts levels) := by
  induction levels with
  | zero => exact ignoresEpoch_blockStep ignore (ignoresEpoch_const _)
  | succ levels ih => exact ignoresEpoch_blockStep ignore ih

theorem ignoresEpoch_block (ignore : parts.IgnoreEpoch) : IgnoresEpoch (block parts) :=
  fun site n => ignoresEpoch_blockAt ignore site.ctx.blockLevels site n

theorem ignoresEpoch_methodBody {block : BlockGen} {expr : ExprGen} (blocks : IgnoresEpoch block)
    (exprs : IgnoresEpoch expr) : IgnoresEpoch (methodBody block expr) := by
  intro site n
  funext length returns
  have last : IgnoresEpoch (ending expr) := exprs.lift fun _ _ _ => rfl
  unfold methodBody
  rw [blocks site n]
  exact congrArg _ (funext fun statements => congrArg (· >>= _)
    (congrFun (last { site with scope := statements.foldl after site.scope } n) returns))

theorem parameterTypes_atEpoch (c : Catalog) (n : Nat) :
    parameterTypes (c.atEpoch n) = parameterTypes c := by
  funext count
  induction count with
  | zero => rfl
  | succ count ih =>
    unfold parameterTypes
    rw [ih]
    rfl

theorem ignoresEpoch_methodStep {block : BlockGen} {expr : ExprGen} (blocks : IgnoresEpoch block)
    (exprs : IgnoresEpoch expr) : IgnoresEpoch (methodStep block expr) := by
  intro site n
  funext caller wanted
  have types : parameterTypes (site.atEpoch n).catalog = parameterTypes site.catalog :=
    parameterTypes_atEpoch site.catalog n
  have body (ctx : Context) (scope : Scope) :
      methodBody block expr ⟨(site.atEpoch n).catalog, ctx, scope⟩ =
        methodBody block expr ⟨site.catalog, ctx, scope⟩ :=
    ignoresEpoch_methodBody blocks exprs ⟨site.catalog, ctx, scope⟩ n
  simp only [methodStep, types, body]
  rfl

theorem Parts.ignoreEpoch_partsOf (method : IgnoresEpoch newMethod) :
    (partsOf newMethod).IgnoreEpoch :=
  ⟨ignoresEpoch_expr method, method⟩

theorem ignoresEpoch_methodAt (methodsLeft : Nat) : IgnoresEpoch (methodAt methodsLeft) := by
  induction methodsLeft with
  | zero => exact ignoresEpoch_const _
  | succ methodsLeft ih =>
    exact ignoresEpoch_methodStep (ignoresEpoch_block (Parts.ignoreEpoch_partsOf ih))
      (ignoresEpoch_expr ih)

end Methods
end Generator

open Generator

theorem Gen.ignoresEpoch_block : IgnoresEpoch Gen.block := by
  intro site n
  have method (methodsLeft : Nat) :
      Generator.block (partsOf (methodAt methodsLeft)) (site.atEpoch n) =
        Generator.block (partsOf (methodAt methodsLeft)) site :=
    Generator.ignoresEpoch_block (Parts.ignoreEpoch_partsOf (ignoresEpoch_methodAt _)) site n
  unfold Gen.block
  simp only [method]

theorem Generator.entryBody_atEpoch (c : Catalog) (n : Nat) :
    entryBody (c.atEpoch n) = entryBody c := by
  have body (ctx : Context) (scope : Scope) :
      Gen.block ⟨c.atEpoch n, ctx, scope⟩ = Gen.block ⟨c, ctx, scope⟩ :=
    Gen.ignoresEpoch_block ⟨c, ctx, scope⟩ n
  simp only [entryBody, body]

end JavaSmith
