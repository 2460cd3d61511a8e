import JavaSmith.Proofs.Completion

/-! Every run keeps the order of calls, and what it makes has its calls recorded. -/
namespace JavaSmith

open Generator Program

theorem Site.method_withoutNull (site : Site) (forbidNull : Bool) :
    (site.withoutNull forbidNull).ctx.method = site.ctx.method := by
  unfold Site.withoutNull
  split
  · rfl
  · rfl

theorem Builder.Makes.operands_eq {b : Builder} {args : List ExprId} {node : Node}
    (makes : b.Makes args node) : node.operands = args := by
  cases makes <;> rfl

theorem Builder.Makes.mem_operands {b : Builder} {args : List ExprId} {node : Node}
    (makes : b.Makes args node) : ∀ o ∈ node.operands, o ∈ args := by
  rw [makes.operands_eq]
  exact fun _ => id

theorem Builder.Makes.callee?_eq_none {b : Builder} {args : List ExprId} {node : Node}
    (makes : b.Makes args node) : node.callee? = none := by
  cases makes <;> rfl

/-- The task is part of what is done while `m` is written: a part of its body, or of the initializer of a
field that is declared there. -/
def Task.During (m : MethodId) : Task → Prop
  | .callee _ caller _ | .method _ caller _ => caller = m
  | .expr site _ | .argument site _ _ | .arguments site _ _ | .call site _ | .ending site _
  | .bound site | .statement site | .block site _ | .detour site _ =>
    site.ctx.method = none ∨ site.ctx.method = some m

theorem eq_of_during {site : Site} {caller m : MethodId} (known : site.ctx.method = some caller)
    (during : site.ctx.method = none ∨ site.ctx.method = some m) : caller = m := by
  rcases during with none | same
  · rw [known] at none
    contradiction
  · exact Option.some.inj (known.symm.trans same)

def Task.Records (p : Program) : (task : Task) → task.Outcome → Prop
  | .expr site _, e | .argument site _ _, e | .call site _, e | .bound site, e =>
    p.Recorded site.ctx.method e
  | .arguments site _ _, es => ∀ e ∈ es, p.Recorded site.ctx.method e
  | .callee _ caller _, k | .method _ caller _, k => p.declared.calls.Calls caller k
  | .ending site _, b | .statement site, b | .block site _, b => p.RecordedIn site.ctx.method b
  | .detour _ _, _ => True

/-- While a method is written, a run keeps the order of calls, adds calls to that method and to new ones
alone, and makes nothing whose calls are not recorded. -/
theorem Run.nested {task : Task} {p p' : Program} {r : task.Outcome} (run : Run task p r p') :
    ∀ m, task.During m → p.Nested m → p'.Nested m ∧ Proceeds m p p' ∧ task.Records p' r := by
  induction run with
  | reuse | argumentReuse | boundReuse | boundLiteral =>
    intro m _ nested
    exact nested.addCallless (.refl m _) (fun o none => by contradiction) rfl
  | exprCall _ _ _ _ ih => exact ih
  | assign _ _ _ _ _ _ _ ih =>
    intro m during nested
    obtain ⟨nested, before, source⟩ := ih m during nested
    exact nested.addAssignment before _ source
  | binary _ _ _ _ right ihLeft ihRight =>
    intro m during nested
    obtain ⟨nested, before, left⟩ := ihLeft m during nested
    have left := left.later nested.ordered.grounded right.extends
    obtain ⟨nested, after, right⟩ := ihRight m during nested
    exact nested.applied (before.trans after) _ _ left right
  | cast _ _ _ _ _ ih =>
    intro m during nested
    obtain ⟨nested, before, operand⟩ := ih m during nested
    refine nested.addCallless before (fun o member => ?_) rfl
    rw [List.mem_singleton.1 member]
    exact operand
  | build _ _ _ makes ih =>
    intro m during nested
    obtain ⟨nested, before, args⟩ := ih m during nested
    exact nested.addCallless before (fun o member => args o (makes.mem_operands o member))
      makes.callee?_eq_none
  | exprAfter _ _ ihDetour ih | statementAfter _ _ _ ihDetour ih | detourTrans _ _ ihDetour ih =>
    intro m during nested
    obtain ⟨nested, before, _⟩ := ihDetour m during nested
    obtain ⟨nested, after, recorded⟩ := ih m during nested
    exact ⟨nested, before.trans after, recorded⟩
  | argumentExpr _ _ ih =>
    intro m during nested
    simp only [Task.During, Task.Records, Site.method_withoutNull] at ih
    exact ih m during nested
  | argumentDirect _ _ _ _ makes =>
    intro m _ nested
    exact nested.addCallless (.refl m _) (fun o member => by cases makes.mem_operands o member)
      makes.callee?_eq_none
  | argumentsNil => exact fun m _ nested => ⟨nested, .refl m _, fun e none => by contradiction⟩
  | argumentsCons _ rest ihFirst ihRest =>
    intro m during nested
    obtain ⟨nested, before, first⟩ := ihFirst m during nested
    have first := first.later nested.ordered.grounded rest.extends
    obtain ⟨nested, after, others⟩ := ihRest m during nested
    refine ⟨nested, before.trans after, fun e member => ?_⟩
    rcases List.mem_cons.1 member with rfl | later
    · exact first
    · exact others e later
  | calleeFound callable _ _ recorded =>
    rintro m rfl nested
    exact nested.addCallEdge (.refl _ _) callable recorded
  | calleeNew _ _ _ ih => exact ih
  | call known _ same _ args ihCallee ihArgs =>
    intro m during nested
    obtain rfl := eq_of_during known during
    obtain ⟨nested, before, called⟩ := ihCallee _ rfl nested
    obtain ⟨nested, after, recorded⟩ := ihArgs _ during nested
    refine nested.add (before.trans after) recorded fun k same => ?_
    cases same
    exact ⟨_, known, after.later.calls _ _ called⟩
  | @method _ _ _ _ _ _ o _ body last _ _ ending ihBody ihEnding =>
    rintro m rfl nested
    obtain ⟨inner, before, recorded⟩ := ihBody o.method (.inr rfl) (o.nested_program nested)
    have recorded := recorded.later inner.ordered.grounded ending.extends
    obtain ⟨inner, after, recorded'⟩ := ihEnding o.method (.inr rfl) inner
    exact o.nested_close nested inner (before.trans after) (recorded.append recorded')
  | endingVoid last =>
    intro m _ nested
    refine ⟨nested, .refl m _, ?_⟩
    rcases last with rfl | rfl
    · exact .nil
    · exact .singleton (by rw [visitBlock]; rfl) (fun e root => by contradiction) .nil
  | endingValue _ _ ih =>
    intro m during nested
    obtain ⟨nested, before, value⟩ := ih m during nested
    exact ⟨nested, before, .leaf rfl rfl value⟩
  | print _ _ _ _ ih =>
    intro m during nested
    obtain ⟨nested, before, value⟩ := ih m during nested
    exact ⟨nested, before, .leaf rfl rfl value⟩
  | assignStatement _ _ _ _ _ ih =>
    intro m during nested
    obtain ⟨nested, before, source⟩ := ih m during nested
    obtain ⟨nested, before, value⟩ := nested.addAssignment before _ source
    exact ⟨nested, before, .leaf rfl rfl value⟩
  | callStatement _ _ _ _ ih =>
    intro m during nested
    obtain ⟨nested, before, value⟩ := ih m during nested
    exact ⟨nested, before, .leaf rfl rfl value⟩
  | @declare _ t _ p' _ _ modifiers _ _ _ _ _ ih =>
    intro m during nested
    obtain ⟨nested, before, value⟩ := ih m during nested
    have value := value.later nested.ordered.grounded (p'.extends_addInitializedLocal modifiers t)
    obtain ⟨nested, before⟩ := nested.addInitializedLocal before modifiers t
    exact ⟨nested, before, .leaf rfl rfl value⟩
  | declareField _ _ _ _ _ ih =>
    intro m _ nested
    obtain ⟨nested, before, value⟩ := ih m (.inl rfl) nested
    obtain ⟨nested, before⟩ := nested.addInitializedField before _ _ value
    exact ⟨nested, before, .nil⟩
  | ifThen _ _ _ _ _ _ body ihCondition ihBody =>
    intro m during nested
    obtain ⟨nested, before, condition⟩ := ihCondition m during nested
    have condition := condition.later nested.ordered.grounded body.extends
    obtain ⟨nested, after, recorded⟩ := ihBody m during nested
    refine ⟨nested, before.trans after, .singleton rfl (fun e root => ?_) recorded⟩
    exact List.mem_singleton.1 root ▸ condition
  | ifElse _ _ _ _ _ _ body _ _ otherwise ihCondition ihBody ihOtherwise =>
    intro m during nested
    obtain ⟨nested, before, condition⟩ := ihCondition m during nested
    have condition := condition.later nested.ordered.grounded (body.extends.trans otherwise.extends)
    obtain ⟨nested, between, recorded⟩ := ihBody m during nested
    have recorded := recorded.later nested.ordered.grounded otherwise.extends
    obtain ⟨nested, after, recorded'⟩ := ihOtherwise m during nested
    refine ⟨nested, (before.trans between).trans after, ?_⟩
    refine .singleton (Statement.visit_ifElse ..) (fun e root => ?_) (recorded.append recorded')
    exact List.mem_singleton.1 root ▸ condition
  | @loop _ _ p' _ _ _ _ _ _ _ _ _ _ _ _ _ counter _ body ihBound ihBody =>
    intro m during nested
    subst counter
    obtain ⟨nested, before, bound⟩ := ihBound m during nested
    have bound := bound.later nested.ordered.grounded (p'.extends_addCounter.trans body.extends)
    obtain ⟨nested, before⟩ := nested.addCounter before
    obtain ⟨nested, after, recorded⟩ := ihBody m during nested
    refine ⟨nested, before.trans after, .singleton rfl (fun e root => ?_) recorded⟩
    exact List.mem_singleton.1 root ▸ bound
  | noStatement | blockNil => exact fun m _ nested => ⟨nested, .refl m _, .nil⟩
  | blockCons _ rest ihFirst ihRest =>
    intro m during nested
    obtain ⟨nested, before, recorded⟩ := ihFirst m during nested
    have recorded := recorded.later nested.ordered.grounded rest.extends
    obtain ⟨nested, after, recorded'⟩ := ihRest m during nested
    exact ⟨nested, before.trans after, recorded.append recorded'⟩
  | noDetour => exact fun m _ nested => ⟨nested, .refl m _, trivial⟩
  | detourMethod known _ _ _ ih =>
    intro m during nested
    obtain rfl := eq_of_during known during
    obtain ⟨nested, before, _⟩ := ih _ rfl nested
    exact ⟨nested, before, trivial⟩
  | detourCall known _ _ _ _ _ ihCallee ihArgs =>
    intro m during nested
    obtain rfl := eq_of_during known during
    obtain ⟨nested, before, _⟩ := ihCallee _ rfl nested
    obtain ⟨nested, after, _⟩ := ihArgs _ during nested
    exact ⟨nested, before.trans after, trivial⟩
  | detourBuilder _ _ _ _ ih =>
    intro m during nested
    obtain ⟨nested, before, _⟩ := ih m during nested
    exact ⟨nested, before, trivial⟩

end JavaSmith
