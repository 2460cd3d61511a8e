import JavaSmith.Proofs.RunCalls
import JavaSmith.Proofs.Scoping

/-! Every run keeps to lexical scope. What is picked at a place is in scope there, and stays in scope
wherever the block that is being written ends up. -/
namespace JavaSmith

open Generator

namespace Declarations

variable {p p' : Program} {isStatic : Bool} {locals locals' : List LocalId} {v : Var}

theorem InScope.later (seen : p.declared.InScope isStatic locals v) (h : p.Extends p')
    (more : locals ⊆ locals') : p'.declared.InScope isStatic locals' v := by
  cases v with
  | localVar l => exact more seen
  | field id =>
    obtain ⟨known, static⟩ := seen
    have same := congrArg (fun f => f.modifiers.isStatic) (h.field known)
    exact ⟨Nat.lt_of_lt_of_le known h.fields_size, fun h => same.trans (static h)⟩

theorem Precedes.later {id : FieldId} (earlier : p.declared.Precedes id v)
    (known : id < p.declared.fields.size) (h : p.Extends p') : p'.declared.Precedes id v := by
  cases v with
  | localVar => exact earlier.elim
  | field k =>
    obtain ⟨before, static⟩ := earlier
    have same := congrArg (fun f => f.modifiers.isStatic) (h.field known)
    have same' := congrArg (fun f => f.modifiers.isStatic) (h.field (Nat.lt_trans before known))
    exact ⟨before, fun h => same'.trans (static (same.symm.trans h))⟩

end Declarations

theorem Scope.Offers.inScope {s : Scope} {d : Declarations} {ctx : Context} {v : Var}
    (offered : s.Offers d ctx v) : d.InScope ctx.isStatic s.visible v := by
  cases offered.seen with
  | localVar visible => exact visible
  | field visible => exact mem_visibleFields.1 visible

namespace Program

abbrev BlockScoped (p : Program) (isStatic : Bool) (locals : List LocalId) (b : Block) : Prop :=
  Block.Lexical (fun locals => p.UsesOnly (p.declared.InScope isStatic locals)) locals b

/-- What is complete keeps to its scope: fields stand in order of declaration and are initialized from
earlier ones, and the bodies of methods see nothing but what they declare. -/
structure Lexical (p : Program) : Prop where
  fields : p.fields.toList.map FieldDeclaration.field = List.range p.declared.fields.size
  initializers : ∀ f ∈ p.fields.toList, p.UsesOnly (p.declared.Precedes f.field) f.initializer
  bodies : ∀ m ∈ p.methods.toList, m.method < p.declared.methods.size ∧
    p.BlockScoped (p.declared.method m.method).isStatic m.params m.body

variable {p p' : Program} {isStatic : Bool} {locals locals' : List LocalId} {b : Block}

theorem BlockScoped.later (lexical : p.BlockScoped isStatic locals b) (h : p.Extends p')
    (more : locals ⊆ locals') : p'.BlockScoped isStatic locals' b :=
  lexical.imp (fun _ _ _ more uses => (UsesOnly.later uses h).imp fun _ seen => seen.later h more) more

namespace Lexical

theorem mem_fields (lexical : p.Lexical) {f : FieldDeclaration} (member : f ∈ p.fields.toList) :
    f.field < p.declared.fields.size :=
  List.mem_range.1 (lexical.fields ▸ List.mem_map_of_mem member)

theorem of_extends (lexical : p.Lexical) (h : p.Extends p') (fields : p'.fields = p.fields)
    (size : p'.declared.fields.size = p.declared.fields.size) (methods : p'.methods = p.methods) :
    p'.Lexical where
  fields := by rw [fields, size, lexical.fields]
  initializers f member := by
    rw [fields] at member
    exact ((lexical.initializers f member).later h).imp fun _ earlier =>
      earlier.later (lexical.mem_fields member) h
  bodies m member := by
    obtain ⟨known, body⟩ := lexical.bodies m (methods ▸ member)
    exact ⟨Nat.lt_of_lt_of_le known h.methods_size,
      (h.isStatic known).symm ▸ body.later h (List.Subset.refl _)⟩

theorem add (lexical : p.Lexical) (node : Node) (t : Ty) : (p.add node t).2.Lexical :=
  lexical.of_extends (p.extends_add node t) rfl rfl rfl

theorem setInitialized (lexical : p.Lexical) (v : Var) :
    Lexical { p with declared := p.declared.setInitialized v } := by
  refine lexical.of_extends (p.extends_setInitialized v) rfl ?_ rfl
  cases v <;> simp [Declarations.setInitialized]

theorem addAssignment (lexical : p.Lexical) (v : Var) (source : ExprId) :
    (p.addAssignment v source).2.Lexical :=
  (lexical.setInitialized v).add _ _

theorem applied (lexical : p.Lexical) (use : OperatorUse) (t : Ty) (left right : ExprId) :
    (p.applied use t left right).2.Lexical := by
  obtain ⟨declared, methods, fields⟩ := p.declared_applied use t left right
  exact lexical.of_extends (p.extends_applied use t left right) fields
    (congrArg (·.fields.size) declared) methods

theorem opened {site : Site} {caller : MethodId} {wanted : Option Ty}
    (o : Opening site caller wanted p) (lexical : p.Lexical) : o.program.Lexical := by
  obtain ⟨_, _, g, _, declared⟩ := Declarations.addCallEdge_eq_ok_iff.1 o.recorded
  have size : ∀ (q : Program) (ts : List Ty),
      (q.addParameters ts).2.declared.fields = q.declared.fields := by
    intro q ts
    induction ts generalizing q with
    | nil => rfl
    | cons t rest ih => exact ih (q.addInitializedLocal .none t).2
  refine lexical.of_extends o.extends (fields_addParameters _ _) ?_
    (sameMethods_addParameters _ o.params).methods
  rw [Opening.program, size, withDeclared, declared]
  rfl

theorem addInitializedField (lexical : p.Lexical) {isFinal : Bool} {t : Ty} {e : ExprId}
    (uses : p.UsesOnly (p.declared.InScope isStatic []) e) :
    (p.addInitializedField ⟨false, true, isStatic, isFinal⟩ t e).Lexical := by
  have h := p.extends_addInitializedField ⟨false, true, isStatic, isFinal⟩ t e
  have size : (p.addInitializedField ⟨false, true, isStatic, isFinal⟩ t e).declared.fields.size =
      p.declared.fields.size + 1 := by
    simp [Program.addInitializedField, Declarations.addField, Declarations.setInitialized]
  have pushed : (p.addInitializedField ⟨false, true, isStatic, isFinal⟩ t e).fields.toList =
      p.fields.toList ++ [⟨p.declared.fields.size, e⟩] := Array.toList_push ..
  refine ⟨?_, fun f member => ?_, fun m member => ?_⟩
  · rw [size, pushed, List.map_append, lexical.fields, List.range_succ]
    rfl
  · rw [pushed, List.mem_append, List.mem_singleton] at member
    rcases member with old | rfl
    · exact ((lexical.initializers f old).later h).imp fun _ earlier =>
        earlier.later (lexical.mem_fields old) h
    · refine (uses.later h).imp fun v seen => ?_
      cases v with
      | localVar l => contradiction
      | field k =>
        have new : ((p.addInitializedField ⟨false, true, isStatic, isFinal⟩ t e).declared.field
            p.declared.fields.size).modifiers.isStatic = isStatic := by
          simp [Program.addInitializedField, Declarations.addField, Declarations.setInitialized,
            Declarations.field, Array.getElem_modify]
        exact ⟨seen.1, fun static =>
          (Declarations.InScope.later seen h (List.Subset.refl _)).2 (new.symm.trans static)⟩
  · obtain ⟨known, body⟩ := lexical.bodies m member
    exact ⟨Nat.lt_of_lt_of_le known h.methods_size,
      (h.isStatic known).symm ▸ body.later h (List.Subset.refl _)⟩

theorem closeMethod (lexical : p.Lexical) {m : MethodId} (known : m < p.declared.methods.size)
    (body : p.BlockScoped (p.declared.method m).isStatic locals b) :
    (p.closeMethod m locals b).Lexical := by
  have h := p.extends_recordCost m b
  have recorded := lexical.of_extends h rfl rfl rfl
  have later := h.trans ((p.recordCost m b).extends_addBody ⟨m, locals, b⟩)
  refine ⟨recorded.fields, recorded.initializers, fun k member => ?_⟩
  rcases mem_toList_push member with old | rfl
  · exact recorded.bodies k old
  · exact ⟨Nat.lt_of_lt_of_le known later.methods_size,
      (later.isStatic known).symm ▸ body.later later (List.Subset.refl _)⟩

end Lexical
end Program

open Program

theorem Site.isStatic_withoutNull (site : Site) (forbidNull : Bool) :
    (site.withoutNull forbidNull).ctx.isStatic = site.ctx.isStatic := by
  unfold Site.withoutNull
  split
  · rfl
  · rfl

theorem Scope.visible_enter (s : Scope) : s.enter.visible = s.visible := by
  simp [enter, visible]

theorem Builder.Makes.var?_eq_none {b : Builder} {args : List ExprId} {node : Node}
    (makes : b.Makes args node) : node.var? = none := by
  cases makes <;> rfl

abbrev Site.Sees (site : Site) (p : Program) : Var → Prop :=
  p.declared.InScope site.ctx.isStatic site.scope.visible

theorem Site.sees_withoutNull (site : Site) (forbidNull : Bool) (p : Program) :
    (site.withoutNull forbidNull).Sees p = site.Sees p := by
  unfold Site.withoutNull
  split
  · rfl
  · rfl

def Task.Lexical (p : Program) : (task : Task) → task.Outcome → Prop
  | .expr site _, e | .argument site _ _, e | .call site _, e | .bound site, e =>
    p.UsesOnly (site.Sees p) e
  | .arguments site _ _, es => ∀ e ∈ es, p.UsesOnly (site.Sees p) e
  | .ending site _, b | .statement site, b | .block site _, b =>
    p.BlockScoped site.ctx.isStatic site.scope.visible b
  | .callee _ _ _, _ | .method _ _ _, _ | .detour _ _, _ => True

namespace Program.UsesOnly

variable {p p' : Program} {site : Site} {e : ExprId}

theorem inScope (uses : p'.UsesOnly (site.Sees p) e) (h : p.Extends p') :
    p'.UsesOnly (site.Sees p') e :=
  uses.imp fun _ seen => seen.later h (List.Subset.refl _)

theorem grown (uses : p.UsesOnly (site.Sees p) e) (h : p.Extends p') :
    p'.UsesOnly (site.Sees p') e :=
  (uses.later h).inScope h

end Program.UsesOnly

/-- A run keeps to the scope it is started in. -/
theorem Run.lexical {task : Task} {p p' : Program} {r : task.Outcome} (run : Run task p r p') :
    p.Lexical → p'.Lexical ∧ task.Lexical p' r := by
  induction run with
  | reuse _ offered | boundReuse _ offered =>
    exact fun lexical => ⟨lexical.add _ _, .addRead offered.inScope⟩
  | argumentReuse offered =>
    intro lexical
    have seen := offered.inScope
    rw [Site.isStatic_withoutNull] at seen
    exact ⟨lexical.add _ _, .addRead seen⟩
  | exprCall _ _ _ _ ih | calleeNew _ _ _ ih => exact ih
  | assign _ _ _ offered _ _ run ih =>
    intro lexical
    obtain ⟨lexical, source⟩ := ih lexical
    have seen := offered.inScope.later run.extends (List.Subset.refl _)
    exact ⟨lexical.addAssignment _ _, (source.addAssignment seen).inScope (extends_addAssignment ..)⟩
  | binary _ _ _ _ second ih ih' =>
    intro lexical
    obtain ⟨lexical, left⟩ := ih lexical
    obtain ⟨lexical, right⟩ := ih' lexical
    exact ⟨lexical.applied _ _ _ _,
      ((left.grown second.extends).applied right _ _).inScope (extends_applied ..)⟩
  | cast _ _ _ _ _ ih =>
    intro lexical
    obtain ⟨lexical, operand⟩ := ih lexical
    exact ⟨lexical.add _ _, operand.addCast _⟩
  | build _ _ _ makes ih =>
    intro lexical
    obtain ⟨lexical, args⟩ := ih lexical
    exact ⟨lexical.add _ _,
      .addOther _ (fun o member => args o (makes.mem_operands o member)) makes.var?_eq_none⟩
  | exprAfter _ _ ihDetour ih | statementAfter _ _ _ ihDetour ih | detourTrans _ _ ihDetour ih =>
    exact fun lexical => ih (ihDetour lexical).1
  | argumentExpr _ _ ih =>
    intro lexical
    obtain ⟨lexical, value⟩ := ih lexical
    rw [Task.Lexical, Site.sees_withoutNull] at value
    exact ⟨lexical, value⟩
  | argumentDirect _ _ _ _ makes =>
    exact fun lexical => ⟨lexical.add _ _,
      .addOther _ (fun o member => by cases makes.mem_operands o member) makes.var?_eq_none⟩
  | argumentsNil => exact fun lexical => ⟨lexical, fun e none => by contradiction⟩
  | argumentsCons _ rest ihFirst ihRest =>
    intro lexical
    obtain ⟨lexical, first⟩ := ihFirst lexical
    obtain ⟨lexical, others⟩ := ihRest lexical
    refine ⟨lexical, fun e member => ?_⟩
    rcases List.mem_cons.1 member with rfl | later
    · exact first.grown rest.extends
    · exact others e later
  | calleeFound _ _ _ recorded =>
    intro lexical
    obtain ⟨_, _, _, _, rfl⟩ := Declarations.addCallEdge_eq_ok_iff.1 recorded
    exact ⟨lexical.of_extends (extends_addCallEdge recorded) rfl rfl rfl, trivial⟩
  | call _ _ _ _ _ ihCallee ihArgs =>
    intro lexical
    obtain ⟨lexical, args⟩ := ihArgs (ihCallee lexical).1
    exact ⟨lexical.add _ _, .addOther _ args rfl⟩
  | @method _ _ _ _ p' p'' o _ b last _ body ending ihBody ihEnding =>
    intro lexical
    obtain ⟨lexical, inner⟩ := ihBody (lexical.opened o)
    obtain ⟨lexical, rest⟩ := ihEnding lexical
    have inside : o.inner.scope.visible ⊆ o.locals := fun l visible =>
      (Scope.mem_visible_parameters visible).resolve_right fun none => by contradiction
    have whole : p''.BlockScoped o.isStatic o.locals (b ++ last) := Block.lexical_append.2
      ⟨inner.later ending.extends inside,
        rest.later (.refl _) (Scope.visible_after_subset inside)⟩
    have h := body.extends.trans ending.extends
    obtain ⟨known, static, _⟩ := o.method_program
    refine ⟨lexical.closeMethod (Nat.lt_of_lt_of_le known h.methods_size) ?_, trivial⟩
    rw [h.isStatic known, static]
    exact whole
  | endingVoid last =>
    intro lexical
    rcases last with rfl | rfl
    · exact ⟨lexical, trivial⟩
    · exact ⟨lexical, Block.lexical_singleton.2 trivial⟩
  | endingValue _ _ ih | print _ _ _ _ ih | callStatement _ _ _ _ ih =>
    intro lexical
    obtain ⟨lexical, value⟩ := ih lexical
    exact ⟨lexical, Block.lexical_singleton.2 value⟩
  | assignStatement _ _ offered _ run ih =>
    intro lexical
    obtain ⟨lexical, source⟩ := ih lexical
    have seen := offered.inScope.later run.extends (List.Subset.refl _)
    exact ⟨lexical.addAssignment _ _, Block.lexical_singleton.2
      ((source.addAssignment seen).inScope (extends_addAssignment ..))⟩
  | @declare _ t _ p' _ _ modifiers _ _ _ _ _ ih =>
    intro lexical
    obtain ⟨lexical, value⟩ := ih lexical
    have h := p'.extends_addInitializedLocal modifiers t
    exact ⟨lexical.of_extends h rfl rfl rfl, Block.lexical_singleton.2 (value.grown h)⟩
  | declareField _ _ _ _ _ ih =>
    intro lexical
    obtain ⟨lexical, value⟩ := ih lexical
    exact ⟨lexical.addInitializedField value, trivial⟩
  | ifThen _ _ _ _ _ _ body ihCondition ihBody =>
    intro lexical
    obtain ⟨lexical, condition⟩ := ihCondition lexical
    obtain ⟨lexical, inner⟩ := ihBody lexical
    refine ⟨lexical, Block.lexical_singleton.2 ⟨condition.grown body.extends, ?_⟩⟩
    rwa [Task.Lexical, Site.inBranch, Scope.visible_enter] at inner
  | ifElse _ _ _ _ _ _ body _ _ otherwise ihCondition ihBody ihOtherwise =>
    intro lexical
    obtain ⟨lexical, condition⟩ := ihCondition lexical
    obtain ⟨lexical, inner⟩ := ihBody lexical
    obtain ⟨lexical, inner'⟩ := ihOtherwise lexical
    rw [Task.Lexical, Site.inBranch, Scope.visible_enter] at inner inner'
    exact ⟨lexical, Block.lexical_singleton.2
      ⟨condition.grown (body.extends.trans otherwise.extends),
        inner.later otherwise.extends (List.Subset.refl _), inner'⟩⟩
  | @loop _ _ p' _ _ _ _ _ _ _ _ _ _ _ _ _ counter _ body ihBound ihBody =>
    intro lexical
    subst counter
    obtain ⟨lexical, bound⟩ := ihBound lexical
    have h := p'.extends_addCounter
    obtain ⟨lexical, inner⟩ := ihBody (lexical.of_extends h rfl rfl rfl)
    refine ⟨lexical, Block.lexical_singleton.2 ⟨bound.grown (h.trans body.extends), ?_⟩⟩
    refine BlockScoped.later inner (.refl _) fun l visible => ?_
    rcases Scope.mem_visible_declare visible with rfl | outside
    · exact List.mem_cons_self
    · exact List.mem_cons_of_mem _ (Scope.visible_enter _ ▸ outside)
  | boundLiteral =>
    exact fun lexical => ⟨lexical.add _ _, .addOther _ (fun o none => by contradiction) rfl⟩
  | noStatement | blockNil | noDetour => exact fun lexical => ⟨lexical, trivial⟩
  | blockCons _ rest ihFirst ihRest =>
    intro lexical
    obtain ⟨lexical, first⟩ := ihFirst lexical
    obtain ⟨lexical, others⟩ := ihRest lexical
    exact ⟨lexical, Block.lexical_append.2 ⟨first.later rest.extends (List.Subset.refl _),
      others.later (.refl _) (Scope.visible_after_subset (List.Subset.refl _))⟩⟩
  | detourMethod _ _ _ _ ih | detourBuilder _ _ _ _ ih =>
    exact fun lexical => ⟨(ih lexical).1, trivial⟩
  | detourCall _ _ _ _ _ _ ih ih' => exact fun lexical => ⟨(ih' (ih lexical).1).1, trivial⟩

end JavaSmith
