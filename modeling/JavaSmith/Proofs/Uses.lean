import Mathlib.Data.List.Perm.Subperm
import JavaSmith.Proofs.Generation
import JavaSmith.Proofs.RunCalls

/-! Uses of expressions. What a run makes is put in one place at most: whoever asked for it holds it until
it becomes an operand, part of a statement or the first value of a field, or drops it. What is in use and
what is held are therefore different numbers at any time, of those that have been given out. -/
namespace JavaSmith

open Generator

namespace Program

/-- Every use of an expression: as an operand, in a statement, or as the first value of a field. -/
def uses (p : Program) : List ExprId := p.arena.toList.flatMap (·.node.operands) ++ p.roots

/-- Nothing is used twice, and what is held exists and is not in use. -/
def Linear (p : Program) (held : List ExprId) : Prop :=
  (p.uses ++ held).Subperm (List.range p.exprCount)

variable {p p' : Program} {held held' : List ExprId}

theorem count_uses (p : Program) (e : ExprId) :
    p.uses.count e = (p.arena.toList.flatMap (·.node.operands)).count e +
      (p.fields.toList.map FieldDeclaration.initializer).count e +
      (p.methods.toList.flatMap fun m => Block.roots m.body).count e +
      (Block.roots p.entry.body).count e := by
  simp only [uses, roots, statements, methodsInOrder, List.flatMap_assoc, List.flatMap_append,
    List.flatMap_singleton, List.count_append, Nat.add_assoc]
  rfl

theorem uses_addParameters (p : Program) (params : List Ty) :
    (p.addParameters params).2.uses = p.uses := by
  induction params generalizing p with
  | nil => rfl
  | cons t rest ih => exact ih (p.addInitializedLocal .none t).2

namespace Linear

theorem nodup (linear : p.Linear held) : (p.uses ++ held).Nodup := by
  obtain ⟨l, same, sub⟩ := linear
  exact same.nodup_iff.1 (sub.nodup List.nodup_range)

theorem lt_exprCount (linear : p.Linear held) {e : ExprId} (member : e ∈ p.uses ++ held) :
    e < p.exprCount :=
  List.mem_range.1 (linear.subset member)

theorem of_count (linear : p.Linear held) (size : p.exprCount ≤ p'.exprCount)
    (less : ∀ e, p'.uses.count e + held'.count e ≤ p.uses.count e + held.count e) :
    p'.Linear held' := by
  have sub : (p'.uses ++ held').Subperm (p.uses ++ held) := by
    refine List.subperm_iff_count.2 fun e => ?_
    rw [List.count_append, List.count_append]
    exact less e
  exact (sub.trans linear).trans (List.range_sublist.2 size).subperm

theorem of_uses (linear : p.Linear held) (size : p'.exprCount = p.exprCount)
    (uses : p'.uses = p.uses) : p'.Linear held := by
  unfold Linear
  rwa [size, uses]

theorem hold (linear : p.Linear held) (less : ∀ e, held'.count e ≤ held.count e) :
    p.Linear held' :=
  linear.of_count (Nat.le_refl _) fun e => Nat.add_le_add_left (less e) _

theorem add (node : Node) (t : Ty) (linear : p.Linear (node.operands ++ held)) :
    (p.add node t).2.Linear ((p.add node t).1 :: held) := by
  -- the number of the node is the next after those that have been given out
  have grown : ((p.uses ++ (node.operands ++ held)) ++ [p.exprCount]).Subperm
      (List.range (p.exprCount + 1)) := by
    rw [List.range_succ]
    exact linear.append (List.Subperm.refl _)
  have same : (p.add node t).2.exprCount = p.exprCount + 1 := Array.size_push ..
  unfold Linear
  rw [same]
  refine List.Subperm.trans (List.subperm_iff_count.2 fun e => ?_) grown
  simp only [List.count_append, List.count_cons, count_uses, Program.add, Array.toList_push,
    List.flatMap_append, List.flatMap_singleton, List.count_nil, exprCount]
  omega

theorem addAssignment {source : ExprId} (v : Var) (linear : p.Linear (source :: held)) :
    (p.addAssignment v source).2.Linear ((p.addAssignment v source).1 :: held) := by
  have declared : Program.Linear { p with declared := p.declared.setInitialized v }
      (source :: held) := linear.of_uses rfl rfl
  exact declared.add (.assign v source) _

theorem coerced {e : ExprId} (kind : Kind) (linear : p.Linear (e :: held)) :
    (p.coerced e kind).2.Linear ((p.coerced e kind).1 :: held) := by
  unfold Program.coerced
  split
  · exact linear
  · exact linear.add (.cast _ e) _

theorem swap {e o : ExprId} (linear : p.Linear (e :: o :: held)) : p.Linear (o :: e :: held) :=
  linear.hold fun _ => Nat.le_of_eq ((List.Perm.swap e o held).count_eq _)

theorem coercedOperands {left right : ExprId} (use : OperatorUse)
    (linear : p.Linear (right :: left :: held)) :
    (p.coercedOperands use left right).2.Linear ((p.coercedOperands use left right).1.1 ::
      (p.coercedOperands use left right).1.2 :: held) := by
  unfold Program.coercedOperands
  cases use.kind? with
  | none => exact linear.swap
  | some kind =>
    have first := (linear.swap.coerced kind).swap
    exact (first.coerced (if use.op.isShift then .int else kind)).swap

theorem applied {left right : ExprId} (use : OperatorUse) (t : Ty)
    (linear : p.Linear (right :: left :: held)) :
    (p.applied use t left right).2.Linear ((p.applied use t left right).1 :: held) := by
  have result := (linear.coercedOperands use).add (.binary use.op _ _) use.resultType
  unfold Program.applied
  dsimp only
  split
  · exact result
  · exact result.add (.cast t _) t

theorem addInitializedField {e : ExprId} (modifiers : Modifiers) (t : Ty)
    (linear : p.Linear (e :: held)) : (p.addInitializedField modifiers t e).Linear held := by
  refine linear.of_count (Nat.le_refl _) fun o => ?_
  simp only [count_uses, Program.addInitializedField, Array.toList_push, List.map_append,
    List.map_cons, List.map_nil, List.count_append, List.count_cons, List.count_nil]
  omega

theorem drop {es : List ExprId} (linear : p.Linear (es ++ held)) : p.Linear held :=
  linear.hold fun _ => (List.sublist_append_right es held).count_le _

theorem append {a b : Block} (linear : p.Linear (Block.roots b ++ (Block.roots a ++ held))) :
    p.Linear (Block.roots (a ++ b) ++ held) := by
  refine linear.hold fun e => ?_
  simp only [Block.roots_append, List.count_append]
  omega

theorem statement {s : Statement} {inner : Block} {e : ExprId}
    (linear : p.Linear (Block.roots inner ++ e :: held)) (visits : s.visit = s :: visitBlock inner)
    (own : s.roots = [e]) : p.Linear (Block.roots [s] ++ held) := by
  refine linear.hold fun o => ?_
  simp only [Block.roots_singleton visits, own, List.count_append, List.count_cons, List.count_nil]
  omega

theorem opening {site : Site} {caller : MethodId} {wanted : Option Ty} (linear : p.Linear held)
    (o : Opening site caller wanted p) : o.program.Linear held := by
  have declared : (p.withDeclared o.declared).Linear held := linear.of_uses rfl rfl
  exact declared.of_uses (congrArg Array.size (arena_addParameters ..)) (uses_addParameters ..)

theorem closeMethod {body : Block} (m : MethodId) (params : List LocalId)
    (linear : p.Linear (Block.roots body ++ held)) : (p.closeMethod m params body).Linear held := by
  refine linear.of_count (Nat.le_refl _) fun o => ?_
  simp only [count_uses, Program.closeMethod, addBody, recordCost, Array.toList_push,
    List.flatMap_append, List.flatMap_singleton, List.count_append]
  omega

theorem closeEntry {body : Block} (linear : p.Linear (Block.roots body ++ held)) :
    (p.closeEntry body).Linear held := by
  refine linear.of_count (Nat.le_refl _) fun o => ?_
  simp only [count_uses, Program.closeEntry, recordCost, List.count_append]
  omega

end Linear

end Program

def Task.gives : (task : Task) → task.Outcome → List ExprId
  | .expr _ _, e | .argument _ _ _, e | .call _ _, e | .bound _, e => [e]
  | .arguments _ _ _, es => es
  | .ending _ _, b | .statement _, b | .block _ _, b => Block.roots b
  | .callee _ _ _, _ | .method _ _ _, _ | .detour _ _, _ => []

open Program

/-- A run leaves alone what others hold. -/
theorem Run.linear {task : Task} {p p' : Program} {r : task.Outcome} (run : Run task p r p') :
    ∀ held, p.Linear held → p'.Linear (task.gives r ++ held) := by
  induction run with
  | reuse | argumentReuse | boundReuse =>
    exact fun held linear => linear.add (.read _) _
  | boundLiteral => exact fun held linear => linear.add (.constant _) _
  | exprCall _ _ _ _ ih | argumentExpr _ _ ih | calleeNew _ _ _ ih => exact ih
  | assign _ _ _ _ _ _ _ ih => exact fun held linear => (ih held linear).addAssignment _
  | binary _ _ _ _ _ ihLeft ihRight =>
    exact fun held linear => (ihRight _ (ihLeft held linear)).applied _ _
  | cast _ _ _ _ _ ih => exact fun held linear => (ih held linear).add (.cast _ _) _
  | build _ _ _ makes ih =>
    intro held linear
    exact Linear.add _ _ (makes.operands_eq.symm ▸ ih held linear)
  | exprAfter _ _ ihDetour ih | statementAfter _ _ _ ihDetour ih | detourTrans _ _ ihDetour ih =>
    exact fun held linear => ih held (ihDetour held linear)
  | argumentDirect _ _ _ _ makes =>
    intro held linear
    exact Linear.add _ _ (makes.operands_eq.symm ▸ linear)
  | argumentsNil | noDetour | noStatement | blockNil => exact fun held linear => linear
  | argumentsCons _ _ ihFirst ihRest =>
    -- the first argument is held while the others are made
    intro held linear
    refine (ihRest _ (ihFirst held linear)).hold fun o => ?_
    simp only [Task.gives, List.count_append, List.count_cons, List.count_nil]
    omega
  | calleeFound _ _ _ recorded => exact fun held linear => linear.of_uses rfl rfl
  | call _ _ _ _ _ ihCallee ihArgs =>
    intro held linear
    exact (ihArgs held (ihCallee held linear)).add (.call _ none _) _
  | @method _ _ _ _ _ _ o _ _ _ _ _ _ ihBody ihEnding =>
    intro held linear
    exact (ihEnding _ (ihBody held (linear.opening o))).append.closeMethod _ _
  | endingVoid last =>
    intro held linear
    rcases last with rfl | rfl
    · exact linear
    · exact linear
  | endingValue _ _ ih | print _ _ _ _ ih | callStatement _ _ _ _ ih => exact ih
  | assignStatement _ _ _ _ _ ih => exact fun held linear => (ih held linear).addAssignment _
  | declare _ _ _ _ _ ih => exact fun held linear => (ih held linear).of_uses rfl rfl
  | declareField _ _ _ _ _ ih =>
    exact fun held linear => (ih held linear).addInitializedField _ _
  | ifThen _ _ _ _ _ _ _ ihCondition ihBody =>
    intro held linear
    exact (ihBody _ (ihCondition held linear)).statement rfl rfl
  | ifElse _ _ _ _ _ _ _ _ _ _ ihCondition ihBody ihOtherwise =>
    intro held linear
    have branches := (ihOtherwise _ (ihBody _ (ihCondition held linear))).append
    exact branches.statement (Statement.visit_ifElse ..) rfl
  | loop _ _ _ _ _ _ counter _ _ ihBound ihBody =>
    intro held linear
    subst counter
    exact (ihBody _ ((ihBound held linear).of_uses rfl rfl)).statement rfl rfl
  | blockCons _ _ ihFirst ihRest =>
    exact fun held linear => (ihRest _ (ihFirst held linear)).append
  | detourMethod _ _ _ _ ih => exact ih
  | detourCall _ _ _ _ _ _ ihCallee ihArgs =>
    exact fun held linear => (ihArgs held (ihCallee held linear)).drop
  | detourBuilder _ _ _ _ ih => exact fun held linear => (ih held linear).drop

theorem Generated.linear {c : Catalog} {p : Program} {seed : UInt64} {config : Config}
    (generated : Generated c seed config p) : p.Linear [] := by
  obtain ⟨length, body, q, _, run, rfl⟩ := generated.run
  have new : (Program.new config.className seed config.knobs).Linear [] := List.nil_subperm
  exact (run.linear [] new).closeEntry

end JavaSmith
