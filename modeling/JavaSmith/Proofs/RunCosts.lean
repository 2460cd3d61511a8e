import JavaSmith.Proofs.Affordable
import JavaSmith.Proofs.Recursion

/-! Every run keeps within its budget. The cost of a method is recorded once, when its body is known, and
all that the body calls is complete by then; so the recorded costs stay those of the bodies. -/
namespace JavaSmith

open Generator Program

namespace Declarations

theorem method_setCost_of_ne (d : Declarations) {k m : MethodId} (other : k ≠ m) (cost : Nat) :
    (d.setCost m cost).method k = d.method k := by
  simp [setCost, method, Array.getElem?_modify, Ne.symm other]

theorem cost_setCost (d : Declarations) {m : MethodId} (inside : m < d.methods.size) (cost : Nat) :
    ((d.setCost m cost).method m).cost = cost := by
  simp [setCost, method, inside, Array.getElem_modify]

theorem methods_setInitialized (d : Declarations) (v : Var) :
    (d.setInitialized v).methods = d.methods := by
  cases v <;> rfl

end Declarations

namespace Program

def KeepsCosts (p p' : Program) : Prop :=
  ∀ k < p.declared.methods.size, (p'.declared.method k).cost = (p.declared.method k).cost

variable {p p' p'' : Program}

namespace KeepsCosts

theorem of_methods (same : p'.declared.methods = p.declared.methods) : p.KeepsCosts p' := by
  intro k _
  rw [Declarations.method, Declarations.method, same]

theorem trans (first : p.KeepsCosts p') (second : p'.KeepsCosts p'') (h : p.Extends p') :
    p.KeepsCosts p'' :=
  fun k inside => (second k (Nat.lt_of_lt_of_le inside h.methods_size)).trans (first k inside)

theorem settles (keeps : p.KeepsCosts p') (h : p.Extends p') (ordered : p.Ordered) :
    p.Settles p' where
  later := h
  costs k complete := keeps k (ordered.known k complete)

end KeepsCosts

theorem keepsCosts_applied (p : Program) (use : OperatorUse) (t : Ty) (left right : ExprId) :
    p.KeepsCosts (p.applied use t left right).2 :=
  .of_methods (congrArg Declarations.methods (p.declared_applied use t left right).1)

theorem methods_addParameters (p : Program) (params : List Ty) :
    (p.addParameters params).2.declared.methods = p.declared.methods := by
  induction params generalizing p with
  | nil => rfl
  | cons t rest ih => exact ih (p.addInitializedLocal .none t).2

end Program

theorem Opening.keepsCosts {site : Site} {caller : MethodId} {wanted : Option Ty} {p : Program}
    (o : Opening site caller wanted p) : p.KeepsCosts o.program := by
  intro k inside
  obtain ⟨_, _, g, _, declared⟩ := Declarations.addCallEdge_eq_ok_iff.1 o.recorded
  have same : o.program.declared.methods = o.declared.methods :=
    methods_addParameters (p.withDeclared o.declared) o.params
  rw [Declarations.method, same, declared]
  exact congrArg Method.cost (Declarations.method_appendMethod _ inside)

/-- A run records costs for new methods alone. -/
theorem Run.keepsCosts {task : Task} {p p' : Program} {r : task.Outcome} (run : Run task p r p') :
    p.KeepsCosts p' := by
  induction run with
  | reuse | argumentReuse | boundReuse | boundLiteral | argumentDirect | argumentsNil | endingVoid
  | noStatement | blockNil | noDetour => exact .of_methods rfl
  | exprCall _ _ _ _ ih | argumentExpr _ _ ih | calleeNew _ _ _ ih | endingValue _ _ ih
  | print _ _ _ _ ih | callStatement _ _ _ _ ih | detourMethod _ _ _ _ ih
  | detourBuilder _ _ _ _ ih => exact ih
  | assign _ _ _ _ _ _ run ih | assignStatement _ _ _ _ run ih =>
    exact ih.trans (.of_methods (Declarations.methods_setInitialized ..)) run.extends
  | binary _ _ _ left right ihLeft ihRight =>
    exact (ihLeft.trans ihRight left.extends).trans (keepsCosts_applied _ _ _ _ _)
      (left.extends.trans right.extends)
  | cast _ _ _ _ _ ih | build _ _ _ _ ih => exact ih
  | exprAfter first _ ih ih' | argumentsCons first _ ih ih' | statementAfter _ first _ ih ih'
  | blockCons first _ ih ih' | detourTrans first _ ih ih' | ifThen _ _ _ _ first _ _ ih ih'
  | detourCall _ _ first _ _ _ ih ih' | call _ first _ _ _ ih ih' =>
    exact ih.trans ih' first.extends
  | calleeFound _ _ _ recorded =>
    obtain ⟨_, _, g, _, rfl⟩ := Declarations.addCallEdge_eq_ok_iff.1 recorded
    exact .of_methods rfl
  | @method _ _ _ _ _ _ o _ body last _ inner ending ihBody ihEnding =>
    have before := (o.keepsCosts.trans ihBody o.extends).trans ihEnding
      (o.extends.trans inner.extends)
    intro k inside
    exact (congrArg Method.cost (Declarations.method_setCost_of_ne _ (Nat.ne_of_lt inside) _) :).trans
      (before k inside)
  | declare _ _ _ _ _ ih => exact ih
  | declareField _ _ _ _ _ ih => exact ih
  | ifElse _ _ _ _ first _ second _ _ _ ih ih' ih'' =>
    exact (ih.trans ih' first.extends).trans ih'' (first.extends.trans second.extends)
  | loop _ _ _ _ _ first counter _ _ ih ih' =>
    subst counter
    exact ih.trans ih' first.extends

namespace Program

structure CostedAs (p : Program) (m : MethodId) (body : Block) : Prop where
  recorded : (p.declared.method m).cost = p.blockCost body
  within : p.BlockWithin runBudget body

def Costed (p : Program) : Prop := ∀ m ∈ p.methods.toList, p.CostedAs m.method m.body

variable {p p' : Program} {m : MethodId} {body : Block}

theorem Costed.later (costed : p.Costed) (grounded : p.Grounded) (settles : p.Settles p')
    (methods : p'.methods = p.methods) : p'.Costed := by
  intro m member
  rw [methods] at member
  obtain ⟨recorded, within⟩ := costed m member
  refine ⟨?_, within.later grounded settles⟩
  rw [settles.costs _ (List.mem_map_of_mem member), recorded,
    within.blockCost_later grounded settles]

theorem settles_recordCost (p : Program) (incomplete : m ∉ p.completed) (body : Block) :
    p.Settles (p.recordCost m body) where
  later := p.extends_recordCost m body
  costs k complete := by
    have other : k ≠ m := fun same => incomplete (same ▸ complete)
    exact (congrArg Method.cost (Declarations.method_setCost_of_ne _ other _) :)

/-- The cost of a body that calls complete methods alone stays what was recorded. -/
theorem Nested.costedAs_recordCost (nested : p.Nested m) (within : p.BlockWithin runBudget body) :
    (p.recordCost m body).CostedAs m body := by
  have grounded := nested.ordered.grounded
  have settles := p.settles_recordCost nested.writes.incomplete body
  refine ⟨?_, within.later grounded settles⟩
  rw [within.blockCost_later grounded settles]
  exact Declarations.cost_setCost _ nested.writes.known _

theorem settles_addBody (p : Program) (d : MethodDeclaration) : p.Settles (p.addBody d) where
  later := p.extends_addBody d
  costs _ _ := rfl

theorem Nested.costed_closeMethod (nested : p.Nested m) (costed : p.Costed)
    (within : p.BlockWithin runBudget body) (params : List LocalId) :
    (p.closeMethod m params body).Costed := by
  have grounded := nested.ordered.grounded
  have settles := p.settles_recordCost nested.writes.incomplete body
  have added := (p.recordCost m body).settles_addBody ⟨m, params, body⟩
  have all : ∀ d ∈ p.methods.toList ++ [⟨m, params, body⟩],
      (p.recordCost m body).CostedAs d.method d.body := by
    intro d member
    rcases List.mem_append.1 member with old | new
    · exact costed.later grounded settles rfl d old
    · rw [List.mem_singleton.1 new]
      exact nested.costedAs_recordCost within
  intro d member
  have pushed : d ∈ (p.methods.push ⟨m, params, body⟩).toList := member
  rw [Array.toList_push] at pushed
  obtain ⟨recorded, within⟩ := all d pushed
  refine ⟨?_, within.later (grounded.of_arena rfl) added⟩
  exact recorded.trans (within.blockCost_later (grounded.of_arena rfl) added).symm

end Program

def Task.site : Task → Site
  | .expr site _ | .argument site _ _ | .arguments site _ _ | .callee site _ _ | .call site _
  | .method site _ _ | .ending site _ | .bound site | .statement site | .block site _
  | .detour site _ => site

/-- The budget at the place covers what the task gives. -/
def Task.Within (p : Program) : (task : Task) → task.Outcome → Prop
  | .expr site _, e | .argument site _ _, e | .call site _, e => p.ExprWithin site.ctx.costBudget e
  | .bound _, e => p.BoundsLoop e
  | .arguments site _ _, es => ∀ e ∈ es, p.ExprWithin site.ctx.costBudget e
  | .callee _ _ _, k | .method _ _ _, k => k ∈ p.completed
  | .ending site _, b | .statement site, b | .block site _, b =>
    p.BlockWithin site.ctx.costBudget b
  | .detour _ _, _ => True

theorem Site.costBudget_withoutNull (site : Site) (forbidNull : Bool) :
    (site.withoutNull forbidNull).ctx.costBudget = site.ctx.costBudget := by
  unfold Site.withoutNull
  split
  · rfl
  · rfl

theorem affordable_of_mem_flowShares {knobs : Knobs} {budget share : Nat} {kind : LoopKind}
    (offered : (.loop kind, share) ∈ flowShares knobs budget) (positive : 0 < share) :
    knobs.get .maxLoopIterations ≤ budget := by
  by_contra unaffordable
  simp only [flowShares, unaffordable, if_false, List.mem_cons, Prod.mk.injEq, Flow.loop.injEq,
    List.not_mem_nil, or_false] at offered
  rcases offered with ⟨other, _⟩ | ⟨_, none⟩ | ⟨_, none⟩ | ⟨_, none⟩
  · contradiction
  all_goals exact absurd positive (none ▸ Nat.lt_irrefl 0)

section Steps

variable {p p' : Program} {m : MethodId} {e : ExprId} {budget : Nat}

namespace Program

theorem Nested.settles (nested : p.Nested m) {task : Task} {r : task.Outcome}
    (run : Run task p r p') : p.Settles p' :=
  run.keepsCosts.settles run.extends nested.ordered

theorem Nested.costed_same (nested : p.Nested m) (costed : p.Costed) (same : p.SameMethods p')
    (keeps : p.KeepsCosts p') : p'.Costed :=
  costed.later nested.ordered.grounded (keeps.settles same.later nested.ordered) same.methods

theorem Nested.costed_add (nested : p.Nested m) (costed : p.Costed) (node : Node) (t : Ty) :
    (p.add node t).2.Costed :=
  nested.costed_same costed (p.sameMethods_add node t) (.of_methods rfl)

theorem Nested.costed_addAssignment (nested : p.Nested m) (costed : p.Costed) (v : Var)
    (within : p.ExprWithin budget e) :
    (p.addAssignment v e).2.Costed ∧
      (p.addAssignment v e).2.ExprWithin budget (p.addAssignment v e).1 := by
  have same := p.sameMethods_setInitialized v
  have keeps : p.KeepsCosts { p with declared := p.declared.setInitialized v } :=
    .of_methods (p.declared.methods_setInitialized v)
  have within := within.later nested.ordered.grounded (keeps.settles same.later nested.ordered)
  have nested' := nested.setInitialized v
  refine ⟨nested'.costed_add (nested.costed_same costed same keeps) _ _, ?_⟩
  exact .addCallless nested'.ordered.grounded (fun o member => List.mem_singleton.1 member ▸ within)
    rfl

theorem boundsLoop_addRead (p : Program) {v : Var}
    (accepted : (Ty.loopBound (p.knobs.get .maxLoopIterations)).accepts (p.declared.typeOf v) = true) :
    (p.addRead v).2.BoundsLoop (p.addRead v).1 where
  inside := (p.made_add _ accepted).inside
  leaf := .inr ⟨v, p.node_add _ _⟩
  accepted := (p.made_add _ accepted).accepted

theorem boundsLoop_addConstant (p : Program) (v : Value) :
    (p.addConstant v (.loopBound (p.knobs.get .maxLoopIterations))).2.BoundsLoop
      (p.addConstant v (.loopBound (p.knobs.get .maxLoopIterations))).1 := by
  have few : p.knobs.get .maxLoopIterations ≤ 1000 := (p.knobs.inRange .maxLoopIterations).2
  have valued : (Ty.loopBound (p.knobs.get .maxLoopIterations)).Valued :=
    Ty.valued_loopBound (by omega)
  have made := p.made_add (.constant v) (Ty.accepts_refl valued)
  exact ⟨made.inside, .inl ⟨v, p.node_add _ _⟩, made.accepted⟩

end Program
end Steps

/-- While a method is written, a run keeps within the budget at its place, and the costs of complete
methods stay known. -/
theorem Run.costed {task : Task} {p p' : Program} {r : task.Outcome} (run : Run task p r p') :
    ∀ m, task.During m → p.Nested m → p.Costed → task.site.ctx.costBudget ≤ runBudget →
      p'.Costed ∧ task.Within p' r := by
  induction run with
  | reuse | argumentReuse =>
    intro m _ nested costed _
    exact ⟨nested.costed_add costed _ _,
      .addCallless nested.ordered.grounded (fun o none => by contradiction) rfl⟩
  | exprCall _ _ _ _ ih => exact ih
  | assign _ _ _ _ _ _ run ih =>
    intro m during nested costed fits
    obtain ⟨costed, source⟩ := ih m during nested costed fits
    exact (run.nested m during nested).1.costed_addAssignment costed _ source
  | binary _ _ _ first second ihLeft ihRight =>
    intro m during nested costed fits
    obtain ⟨costed, left⟩ := ihLeft m during nested costed fits
    have nested := (first.nested m during nested).1
    have left := left.later nested.ordered.grounded (nested.settles second)
    obtain ⟨costed, right⟩ := ihRight m during nested costed fits
    have nested := (second.nested m during nested).1
    exact ⟨nested.costed_same costed (sameMethods_applied ..) (keepsCosts_applied _ _ _ _ _),
      left.applied right nested.ordered.grounded _ _⟩
  | cast _ _ _ _ run ih =>
    intro m during nested costed fits
    obtain ⟨costed, operand⟩ := ih m during nested costed fits
    have nested := (run.nested m during nested).1
    exact ⟨nested.costed_add costed _ _, .addCallless nested.ordered.grounded
      (fun o member => List.mem_singleton.1 member ▸ operand) rfl⟩
  | build _ _ run makes ih =>
    intro m during nested costed fits
    obtain ⟨costed, args⟩ := ih m during nested costed fits
    have nested := (run.nested m during nested).1
    exact ⟨nested.costed_add costed _ _, .addCallless nested.ordered.grounded
      (fun o member => args o (makes.mem_operands o member)) makes.callee?_eq_none⟩
  | exprAfter first _ ihDetour ih | statementAfter _ first _ ihDetour ih
  | detourTrans first _ ihDetour ih =>
    intro m during nested costed fits
    obtain ⟨costed, _⟩ := ihDetour m during nested costed fits
    exact ih m during (first.nested m during nested).1 costed fits
  | argumentExpr _ _ ih =>
    simp only [Task.During, Task.site, Task.Within, Site.method_withoutNull,
      Site.costBudget_withoutNull] at ih
    exact ih
  | argumentDirect _ _ _ _ makes =>
    intro m _ nested costed _
    exact ⟨nested.costed_add costed _ _, .addCallless nested.ordered.grounded
      (fun o member => by cases makes.mem_operands o member) makes.callee?_eq_none⟩
  | argumentsNil => exact fun m _ nested costed _ => ⟨costed, fun e none => by contradiction⟩
  | argumentsCons first second ihFirst ihRest =>
    intro m during nested costed fits
    obtain ⟨costed, argument⟩ := ihFirst m during nested costed fits
    have nested := (first.nested m during nested).1
    have argument := argument.later nested.ordered.grounded (nested.settles second)
    obtain ⟨costed, others⟩ := ihRest m during nested costed fits
    refine ⟨costed, fun e member => ?_⟩
    rcases List.mem_cons.1 member with rfl | later
    · exact argument
    · exact others e later
  | calleeFound callable fits affordable recorded =>
    rintro m rfl nested costed _
    have settles := nested.settles (.calleeFound callable fits affordable recorded)
    exact ⟨costed.later nested.ordered.grounded settles rfl, nested.mem_completed callable⟩
  | calleeNew _ _ _ ih => exact ih
  | call known callee same affordable args ihCallee ihArgs =>
    intro m during nested costed fits
    obtain rfl := eq_of_during known during
    obtain ⟨costed, complete⟩ := ihCallee _ rfl nested costed fits
    have nested := (callee.nested _ rfl nested).1
    have settles := nested.settles args
    obtain ⟨costed, within⟩ := ihArgs _ during nested costed fits
    have nested := (args.nested _ during nested).1
    refine ⟨nested.costed_add costed _ _, .add nested.ordered.grounded within fun k called => ?_⟩
    cases called
    rw [settles.costs _ complete, ← same]
    exact ⟨settles.later.completed.subset complete, affordable⟩
  | @method _ _ _ _ _ _ o _ body last _ inner ending ihBody ihEnding =>
    rintro m rfl nested costed fits
    have settles := o.keepsCosts.settles o.extends nested.ordered
    have costed := costed.later nested.ordered.grounded settles
      (sameMethods_addParameters _ o.params).methods
    have nested := o.nested_program nested
    obtain ⟨costed, within⟩ := ihBody o.method (.inr rfl) nested costed fits
    have nested := (inner.nested o.method (.inr rfl) nested).1
    have within := within.later nested.ordered.grounded (nested.settles ending)
    obtain ⟨costed, within'⟩ := ihEnding o.method (.inr rfl) nested costed fits
    have nested := (ending.nested o.method (.inr rfl) nested).1
    have whole := (blockWithin_append.2 ⟨within, within'⟩).mono fits
    refine ⟨nested.costed_closeMethod costed whole o.locals, ?_⟩
    change o.method ∈ _
    rw [completed_closeMethod]
    exact List.mem_append_right _ (List.mem_singleton_self _)
  | endingVoid last =>
    intro m _ nested costed _
    refine ⟨costed, ?_⟩
    rcases last with rfl | rfl
    · trivial
    · exact blockWithin_singleton.2 trivial
  | endingValue _ _ ih | print _ _ _ _ ih | callStatement _ _ _ _ ih =>
    intro m during nested costed fits
    obtain ⟨costed, value⟩ := ih m during nested costed fits
    exact ⟨costed, blockWithin_singleton.2 value⟩
  | assignStatement _ _ _ _ run ih =>
    intro m during nested costed fits
    obtain ⟨costed, source⟩ := ih m during nested costed fits
    obtain ⟨costed, value⟩ := (run.nested m during nested).1.costed_addAssignment costed _ source
    exact ⟨costed, blockWithin_singleton.2 value⟩
  | @declare _ t _ p' _ _ modifiers _ _ _ run _ ih =>
    intro m during nested costed fits
    obtain ⟨costed, value⟩ := ih m during nested costed fits
    have nested := (run.nested m during nested).1
    have same := p'.sameMethods_addInitializedLocal modifiers t
    have keeps : p'.KeepsCosts (p'.addInitializedLocal modifiers t).2 := .of_methods rfl
    exact ⟨nested.costed_same costed same keeps, blockWithin_singleton.2
      (value.later nested.ordered.grounded (keeps.settles same.later nested.ordered))⟩
  | declareField _ _ _ _ run ih =>
    intro m _ nested costed fits
    obtain ⟨costed, _⟩ := ih m (.inl rfl) nested costed fits
    have nested := (run.nested m (.inl rfl) nested).1
    exact ⟨nested.costed_same costed ⟨extends_addInitializedField .., rfl, rfl, rfl⟩
      (.of_methods rfl), trivial⟩
  | ifThen _ _ _ _ first _ second ihCondition ihBody =>
    intro m during nested costed fits
    obtain ⟨costed, condition⟩ := ihCondition m during nested costed fits
    have nested := (first.nested m during nested).1
    have condition := condition.later nested.ordered.grounded (nested.settles second)
    obtain ⟨costed, within⟩ := ihBody m during nested costed fits
    exact ⟨costed, blockWithin_singleton.2 ⟨condition, within⟩⟩
  | ifElse _ _ _ _ first _ second _ _ third ihCondition ihBody ihOtherwise =>
    intro m during nested costed fits
    obtain ⟨costed, condition⟩ := ihCondition m during nested costed fits
    have nested := (first.nested m during nested).1
    have condition := condition.later nested.ordered.grounded (nested.settles second)
    obtain ⟨costed, within⟩ := ihBody m during nested costed fits
    have nested := (second.nested m during nested).1
    have settles := nested.settles third
    have condition := condition.later nested.ordered.grounded settles
    have within := within.later nested.ordered.grounded settles
    obtain ⟨costed, within'⟩ := ihOtherwise m during nested costed fits
    exact ⟨costed, blockWithin_singleton.2 ⟨condition, within, within'⟩⟩
  | @loop site p p' p'' kind _ _ _ _ body _ _ _ offered positive first counter _ second ihBound
      ihBody =>
    intro m during nested costed fits
    subst counter
    obtain ⟨costed, bounds⟩ := ihBound m during nested costed fits
    have nested := (first.nested m during nested).1
    have same : p'.SameMethods p'.addCounter.2 := ⟨p'.extends_addCounter, rfl, rfl, rfl⟩
    have costed := nested.costed_same costed same (.of_methods rfl)
    have nested := (nested.addCounter (.refl m _)).1
    have share : site.ctx.costBudget / max (p.knobs.get .maxLoopIterations) 1 =
        site.ctx.costBudget / p''.knobs.get .maxLoopIterations := by
      have : 1 ≤ p.knobs.get .maxLoopIterations := (p.knobs.inRange .maxLoopIterations).1
      rw [second.extends.knobs, same.later.knobs, first.extends.knobs, Nat.max_eq_left this]
    obtain ⟨costed, within⟩ :=
      ihBody m during nested costed (Nat.le_trans (Nat.div_le_self ..) fits)
    have affordable := affordable_of_mem_flowShares offered positive
    refine ⟨costed, blockWithin_singleton.2 ⟨bounds.later (same.later.trans second.extends), ?_, ?_⟩⟩
    · rw [second.extends.knobs, same.later.knobs, first.extends.knobs]
      exact affordable
    · rw [← share]
      exact within
  | boundReuse _ _ _ accepted =>
    intro m _ nested costed _
    exact ⟨nested.costed_add costed _ _, boundsLoop_addRead _ accepted⟩
  | boundLiteral type =>
    intro m _ nested costed _
    subst type
    exact ⟨nested.costed_add costed _ _, boundsLoop_addConstant _ _⟩
  | noStatement | blockNil => exact fun m _ nested costed _ => ⟨costed, trivial⟩
  | blockCons first second ihFirst ihRest =>
    intro m during nested costed fits
    obtain ⟨costed, within⟩ := ihFirst m during nested costed fits
    have nested := (first.nested m during nested).1
    have within := within.later nested.ordered.grounded (nested.settles second)
    obtain ⟨costed, others⟩ := ihRest m during nested costed fits
    exact ⟨costed, blockWithin_append.2 ⟨within, others⟩⟩
  | noDetour => exact fun m _ nested costed _ => ⟨costed, trivial⟩
  | detourMethod known _ run _ ih =>
    intro m during nested costed fits
    obtain rfl := eq_of_during known during
    exact ⟨(ih _ rfl nested costed fits).1, trivial⟩
  | detourCall known _ first _ _ _ ihCallee ihArgs =>
    intro m during nested costed fits
    obtain rfl := eq_of_during known during
    obtain ⟨costed, _⟩ := ihCallee _ rfl nested costed fits
    have nested := (first.nested _ rfl nested).1
    exact ⟨(ihArgs _ during nested costed fits).1, trivial⟩
  | detourBuilder _ _ _ _ ih =>
    intro m during nested costed fits
    exact ⟨(ih m during nested costed fits).1, trivial⟩

namespace Generated

variable {c : Catalog} {p : Program} {seed : UInt64} {config : Config}

theorem grounded (generated : Generated c seed config p) : p.Grounded := generated.sound.grounded

/-- The recorded cost of every method is that of its body, the entry included. -/
theorem costed (generated : Generated c seed config p) :
    ∀ m ∈ p.methodsInOrder, p.CostedAs m.method m.body := by
  obtain ⟨length, body, q, _, run, rfl⟩ := generated.run
  have new := nested_new config.className seed config.knobs
  have none : (Program.new config.className seed config.knobs).Costed := fun m none => by contradiction
  obtain ⟨costed, within⟩ := run.costed entryId (.inr rfl) new none (Nat.le_refl _)
  obtain ⟨nested, proceeds, _⟩ := run.nested entryId (.inr rfl) new
  have grounded := nested.ordered.grounded
  have settles := q.settles_recordCost nested.writes.incomplete body
  have closed : (q.recordCost entryId body).Settles (q.closeEntry body) :=
    ⟨{ Extends.refl _ with }, fun _ _ => rfl⟩
  intro m member
  have recorded : (q.recordCost entryId body).CostedAs m.method m.body := by
    rcases List.mem_append.1 member with generated | last
    · exact costed.later grounded settles rfl m generated
    · rw [List.mem_singleton.1 last]
      have entry : q.entry.method = entryId := proceeds.later.entry
      exact entry ▸ nested.costedAs_recordCost within
  refine ⟨?_, recorded.within.later (grounded.of_arena rfl) closed⟩
  exact recorded.recorded.trans
    (recorded.within.blockCost_later (grounded.of_arena rfl) closed).symm

end Generated
end JavaSmith
