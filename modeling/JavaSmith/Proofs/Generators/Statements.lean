import JavaSmith.Proofs.Generators.Expressions

/-! Statements without blocks of their own. Of these only a print never declines. -/
namespace JavaSmith

open Generator JavaSmith.Random

variable {c : Catalog} {n : Nat} {p : Program} {site : Site}

namespace Generator

theorem always_length (limit : Nat) : Always (length limit) (· ≤ limit) := by
  unfold length
  split
  · exact Always.pure (Nat.zero_le _)
  · next positive =>
    refine Always.bind (always_index (Nat.pos_of_ne_zero positive)) fun i below => ?_
    exact Always.pure below

theorem always_printableType (c : Catalog) :
    Always (chooseOneByOne (c.valueTypes.filter Ty.isPrintable)) fun o =>
      (o.getD (.primitive .int) ∈ c.valueTypes ∨ o.getD (.primitive .int) = .primitive .int) ∧
      (o.getD (.primitive .int)).isPrintable = true := by
  refine (always_chooseOneByOne _).mono fun o ⟨chosen, _⟩ => ?_
  cases o with
  | none => exact ⟨.inr rfl, rfl⟩
  | some t =>
    obtain ⟨member, printable⟩ := List.mem_filter.1 (chosen t rfl)
    exact ⟨.inl member, printable⟩

structure Parts.At (c : Catalog) (n : Nat) (parts : Parts) : Prop where
  exprs : Exprs c n parts.expr
  methods : MethodsAt c n parts.newMethod

def Filled (site : Site) (p : Program) (o : Option Block) (p' : Program) : Prop :=
  o.elim (Run (.detour site none) p () p') fun b => Run (.statement site) p b p'

variable {parts : Parts}

theorem ensures_print (stage : Stage c n p) (good : site.Good c p) (at' : parts.At c n)
    (allowed : p.Allows .printProbability) :
    Ensures (print parts site) p fun o p' => ∃ b, o = some b ∧ Run (.statement site) p b p' := by
  refine Ensures.bind (R := fun t p' => ((t ∈ site.catalog.valueTypes ∨ t = .primitive .int) ∧
      t.isPrintable = true) ∧ p' = p) ?_ ?_
  · exact Ensures.draw (always_printableType _) fun o offered => Ensures.pure ⟨offered, rfl⟩
  · rintro t _ ⟨⟨type, printable⟩, rfl⟩
    have valued := good.valued (.flat type)
    refine Ensures.bind (at'.exprs site t _ stage good valued) fun e p' run => ?_
    obtain ⟨stage', made⟩ := run.stage stage ⟨good, valued⟩
    refine Ensures.isHole stage'.sound made.inside (Ensures.pure ?_)
    exact ⟨_, rfl, .print allowed type printable run⟩

theorem ensures_assignmentStatement (stage : Stage c n p) (good : site.Good c p)
    (at' : parts.At c n) (may : p.MayNotPrint) (allowed : p.Allows .assignmentProbability) :
    Ensures (assignmentStatement parts site) p (Filled site p) := by
  refine Ensures.drawDeclared (Scope.always_writable _ _ _) ?_
  rintro (_ | v) found
  · exact Ensures.pure .noDetour
  · obtain ⟨offered, writable⟩ := found v rfl
    have declared := good.declares offered
    have valued := stage.sound.vars v declared
    refine Ensures.view ?_
    refine Ensures.bind (at'.exprs site _ p stage good valued) fun source p' run => ?_
    obtain ⟨stage', made⟩ := run.stage stage ⟨good, valued⟩
    refine Ensures.isHole stage'.sound made.inside ?_
    have writable' := (run.extends.isReadOnly declared).trans writable
    refine Ensures.stepUnless (Program.assignmentRefusal?_eq_none_iff.2 writable') ?_
    exact Ensures.pure (.assignStatement may allowed offered writable run)

theorem ensures_callStatement {call : Gen (Option ExprId)} (may : p.MayNotPrint)
    (allowed : p.Allows .methodCallProbability) (affordable : 0 < site.ctx.costBudget)
    (called : Ensures call p (CallTried site none p)) :
    Ensures (callStatement call) p (Filled site p) := by
  refine Ensures.bind called ?_
  rintro (_ | e) p' outcome
  · exact Ensures.pure outcome
  · exact Ensures.pure (.callStatement may allowed affordable outcome)

theorem ensures_localDeclaration (stage : Stage c n p) (good : site.Good c p)
    (at' : parts.At c n) (may : p.MayNotPrint) (allowed : p.Allows .variableProbability) :
    Ensures (localDeclaration parts site) p (Filled site p) := by
  refine Ensures.bind (ensures_valueType site.catalog p) ?_
  rintro t _ ⟨type, rfl⟩
  have valued := good.valued type
  refine Ensures.bind (at'.exprs site t _ stage good valued) fun e p' run => ?_
  obtain ⟨stage', made⟩ := run.stage stage ⟨good, valued⟩
  refine Ensures.isHole stage'.sound made.inside ?_
  refine Ensures.bind (Ensures.roll _) ?_
  rintro isFinal _ ⟨_, _, rfl⟩
  refine Ensures.step ?_
  exact Ensures.pure (.declare may allowed type run rfl)

theorem ensures_static (site : Site) (p : Program) :
    Ensures (if site.ctx.isStatic then pure true else Gen.roll .staticProbability) p fun b p' =>
      (site.ctx.isStatic = true → b = true) ∧ p' = p := by
  split
  · exact Ensures.pure ⟨fun _ => rfl, rfl⟩
  · next instance' =>
    exact (Ensures.roll _).mono fun b p' ⟨_, _, same⟩ => ⟨fun static => absurd static instance', same⟩

theorem ensures_fieldDeclaration (stage : Stage c n p) (good : site.Good c p)
    (at' : parts.At c n) (may : p.MayNotPrint) (allowed : p.Allows .fieldProbability) :
    Ensures (fieldDeclaration parts site) p (Filled site p) := by
  refine Ensures.either (ensures_static site p) ?_
  rintro isStatic _ ⟨static, rfl⟩
  refine Ensures.bind (Ensures.roll _) ?_
  rintro isFinal _ ⟨_, _, rfl⟩
  refine Ensures.bind (ensures_valueType site.catalog _) ?_
  rintro t _ ⟨type, rfl⟩
  have valued := good.valued type
  have good' := good.inInitializer isStatic
  refine Ensures.bind (at'.exprs (site.inInitializer isStatic) t _ stage good' valued)
    fun e p' run => ?_
  obtain ⟨stage', made⟩ := run.stage stage ⟨good', valued⟩
  refine Ensures.isHole stage'.sound made.inside ?_
  refine Ensures.step ?_
  exact Ensures.pure (.declareField may allowed type static run)

end Generator
end JavaSmith
