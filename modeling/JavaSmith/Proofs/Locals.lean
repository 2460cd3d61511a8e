import JavaSmith.Proofs.Nesting

/-! Every local is introduced once. A run accounts for the locals that it adds: each is a parameter of a
method that is completed meanwhile, or is introduced by what the run gives. Locals are told apart from
counters, so a counter is introduced by one loop and by nothing else. -/
namespace JavaSmith

open Generator

/-- Locals that the statement itself introduces, each with whether it is the counter of a loop. -/
def Statement.introduces : Statement → List (LocalId × Bool)
  | .declare l _ => [(l, false)]
  | .loop _ counter _ _ => [(counter, true)]
  | _ => []

def Block.introduces (b : Block) : List (LocalId × Bool) :=
  (visitBlock b).flatMap Statement.introduces

def MethodDeclaration.introduces (m : MethodDeclaration) : List (LocalId × Bool) :=
  m.params.map (·, false) ++ Block.introduces m.body

theorem Block.introduces_append (a b : Block) :
    Block.introduces (a ++ b) = Block.introduces a ++ Block.introduces b := by
  unfold introduces
  rw [visitBlock_append, List.flatMap_append]

theorem Block.introduces_singleton {s : Statement} {inner : Block}
    (visits : s.visit = s :: visitBlock inner) :
    Block.introduces [s] = s.introduces ++ Block.introduces inner := by
  simp [introduces, visitBlock, visits]

namespace Program

def introduced (p : Program) : List (LocalId × Bool) :=
  p.methods.toList.flatMap MethodDeclaration.introduces

def ledger (p : Program) : List (LocalId × Bool) :=
  (List.range p.declared.locals.size).map fun l => (l, (p.declared.localVar l).isCounter)

/-- The locals that are new in the second class are introduced by the methods completed meanwhile and
by what is listed. -/
def Accounts (p p' : Program) (ls : List (LocalId × Bool)) : Prop :=
  ∀ x, p'.introduced.count x + ls.count x + p.ledger.count x =
    p.introduced.count x + p'.ledger.count x

variable {p p' p'' : Program} {ls ls' : List (LocalId × Bool)}

theorem Extends.ledger (h : p.Extends p') :
    (List.range p.declared.locals.size).map (fun l => (l, (p'.declared.localVar l).isCounter)) =
      p.ledger := by
  refine List.map_congr_left fun l inside => ?_
  have same := congrArg Local.isCounter (h.localVar (List.mem_range.1 inside))
  exact congrArg (l, ·) same

namespace Accounts

theorem trans (first : Accounts p p' ls) (second : Accounts p' p'' ls') :
    Accounts p p'' (ls ++ ls') := by
  intro x
  have := first x
  have := second x
  rw [List.count_append]
  omega

theorem of_extends (h : p.Extends p') (methods : p'.methods = p.methods)
    (size : p'.declared.locals.size = p.declared.locals.size) : Accounts p p' [] := by
  intro x
  have ledger := h.ledger
  rw [← size] at ledger
  have same : p'.ledger = p.ledger := ledger
  rw [same, introduced, introduced, methods, List.count_nil, Nat.add_zero]

theorem refl (p : Program) : Accounts p p [] := of_extends (.refl p) rfl rfl

theorem kept (accounts : Accounts p p' ls) (h : p'.Extends p'') (methods : p''.methods = p'.methods)
    (size : p''.declared.locals.size = p'.declared.locals.size) : Accounts p p'' ls := by
  have whole := accounts.trans (of_extends h methods size)
  rwa [List.append_nil] at whole

theorem of_grown (h : p.Extends p') (methods : p'.methods = p.methods)
    (size : p'.declared.locals.size = p.declared.locals.size + 1) :
    Accounts p p' [(p.declared.locals.size,
      (p'.declared.localVar p.declared.locals.size).isCounter)] := by
  intro x
  have grown : p'.ledger = p.ledger ++ [(p.declared.locals.size,
      (p'.declared.localVar p.declared.locals.size).isCounter)] := by
    rw [← h.ledger, Program.ledger, size, List.range_succ, List.map_append]
    rfl
  rw [grown, introduced, introduced, methods, List.count_append]
  omega

theorem add (accounts : Accounts p p' ls) (node : Node) (t : Ty) :
    Accounts p (p'.add node t).2 ls :=
  accounts.kept (p'.extends_add node t) rfl rfl

theorem addAssignment (accounts : Accounts p p' ls) (v : Var) (source : ExprId) :
    Accounts p (p'.addAssignment v source).2 ls := by
  refine accounts.kept (p'.extends_addAssignment v source) rfl ?_
  cases v <;> simp [Program.addAssignment, Program.add, Declarations.setInitialized]

theorem applied (accounts : Accounts p p' ls) (use : OperatorUse) (t : Ty) (left right : ExprId) :
    Accounts p (p'.applied use t left right).2 ls := by
  obtain ⟨declared, methods, _⟩ := p'.declared_applied use t left right
  exact accounts.kept (p'.extends_applied use t left right) methods
    (congrArg (·.locals.size) declared)

theorem addInitializedLocal (p : Program) (modifiers : Modifiers) (t : Ty) :
    Accounts p (p.addInitializedLocal modifiers t).2
      [((p.addInitializedLocal modifiers t).1, false)] := by
  have new := of_grown (p.extends_addInitializedLocal modifiers t) rfl
    (by simp [Program.addInitializedLocal, Declarations.addLocal, Declarations.setInitialized])
  have plain : ((p.addInitializedLocal modifiers t).2.declared.localVar
      p.declared.locals.size).isCounter = false := by
    simp [Program.addInitializedLocal, Declarations.addLocal, Declarations.setInitialized,
      Declarations.localVar, Array.getElem_modify]
  rwa [plain] at new

theorem addCounter (p : Program) : Accounts p p.addCounter.2 [(p.addCounter.1, true)] := by
  have new := of_grown p.extends_addCounter rfl
    (by simp [Program.addCounter, Declarations.addCounter])
  have counts : (p.addCounter.2.declared.localVar p.declared.locals.size).isCounter = true := by
    simp [Program.addCounter, Declarations.addCounter, Declarations.localVar]
  rwa [counts] at new

theorem addParameters (p : Program) (ts : List Ty) :
    Accounts p (p.addParameters ts).2 ((p.addParameters ts).1.map (·, false)) := by
  induction ts generalizing p with
  | nil => exact refl p
  | cons t rest ih => exact (addInitializedLocal p .none t).trans (ih _)

theorem opened {site : Site} {caller : MethodId} {wanted : Option Ty}
    (o : Opening site caller wanted p) : Accounts p o.program (o.locals.map (·, false)) := by
  have declared : Accounts p (p.withDeclared o.declared) [] := by
    obtain ⟨_, _, g, _, declared⟩ := Declarations.addCallEdge_eq_ok_iff.1 o.recorded
    have added := p.extends_addMethod ⟨false, true, o.isStatic, false⟩ o.params o.returns
    refine of_extends (added.trans (extends_addCallEdge o.recorded)) rfl ?_
    rw [withDeclared, declared]
    rfl
  exact declared.trans (addParameters (p.withDeclared o.declared) o.params)

theorem closeMethod {m : MethodId} {params : List LocalId} {body : Block}
    (accounts : Accounts p p' (params.map (·, false) ++ Block.introduces body)) :
    Accounts p (p'.closeMethod m params body) [] := by
  intro x
  have closed : (p'.closeMethod m params body).introduced =
      p'.introduced ++ (params.map (·, false) ++ Block.introduces body) := by
    simp [introduced, Program.closeMethod, addBody, recordCost, MethodDeclaration.introduces]
  have same : (p'.closeMethod m params body).ledger = p'.ledger := rfl
  have := accounts x
  rw [closed, same, List.count_nil, List.count_append]
  omega

end Accounts
end Program

open Program

def Task.introduces : (task : Task) → task.Outcome → List (LocalId × Bool)
  | .ending _ _, b | .statement _, b | .block _ _, b => Block.introduces b
  | .expr _ _, _ | .argument _ _ _, _ | .arguments _ _ _, _ | .callee _ _ _, _ | .call _ _, _
  | .method _ _ _, _ | .bound _, _ | .detour _ _, _ => []

/-- A run accounts for all locals that it adds. -/
theorem Run.accounts {task : Task} {p p' : Program} {r : task.Outcome} (run : Run task p r p') :
    Accounts p p' (task.introduces r) := by
  induction run with
  | reuse | argumentReuse | boundReuse | boundLiteral | argumentDirect =>
    exact (Accounts.refl _).add _ _
  | exprCall _ _ _ _ ih | argumentExpr _ _ ih | calleeNew _ _ _ ih | endingValue _ _ ih
  | print _ _ _ _ ih | callStatement _ _ _ _ ih | detourMethod _ _ _ _ ih
  | detourBuilder _ _ _ _ ih => exact ih
  | assign _ _ _ _ _ _ _ ih | assignStatement _ _ _ _ _ ih => exact ih.addAssignment _ _
  | binary _ _ _ _ _ ih ih' => exact (ih.trans ih').applied _ _ _ _
  | cast _ _ _ _ _ ih | build _ _ _ _ ih => exact ih.add _ _
  | exprAfter _ _ ih ih' | argumentsCons _ _ ih ih' | statementAfter _ _ _ ih ih'
  | detourTrans _ _ ih ih' | detourCall _ _ _ _ _ _ ih ih' => exact ih.trans ih'
  | argumentsNil | noStatement | blockNil | noDetour => exact .refl _
  | calleeFound _ _ _ recorded =>
    obtain ⟨_, _, _, _, rfl⟩ := Declarations.addCallEdge_eq_ok_iff.1 recorded
    exact .of_extends (extends_addCallEdge recorded) rfl rfl
  | call _ _ _ _ _ ih ih' => exact (ih.trans ih').add _ _
  | @method _ _ _ _ _ _ o _ body last _ _ _ ih ih' =>
    refine Accounts.closeMethod ?_
    rw [Block.introduces_append]
    exact (Accounts.opened o).trans (ih.trans ih')
  | endingVoid last => rcases last with rfl | rfl <;> exact .refl _
  | declare _ _ _ _ _ ih => exact ih.trans (.addInitializedLocal _ _ _)
  | declareField _ _ _ _ _ ih => exact ih.kept (extends_addInitializedField ..) rfl rfl
  | ifThen _ _ _ _ _ _ _ ih ih' =>
    rw [Task.introduces, Block.introduces_singleton rfl]
    exact ih.trans ih'
  | @ifElse _ _ _ _ _ _ _ _ body otherwise _ _ _ _ _ _ _ _ _ _ ih ih' ih'' =>
    rw [Task.introduces, Block.introduces_singleton (Statement.visit_ifElse _ body otherwise),
      Block.introduces_append]
    exact ih.trans (ih'.trans ih'')
  | loop _ _ _ _ _ _ counter _ _ ih ih' =>
    subst counter
    rw [Task.introduces, Block.introduces_singleton rfl]
    exact ih.trans ((Accounts.addCounter _).trans ih')
  | blockCons _ _ ih ih' =>
    rw [Task.introduces, Block.introduces_append]
    exact ih.trans ih'

end JavaSmith
