import JavaSmith.Proofs.ExpressionHeights
import JavaSmith.Proofs.Generation

/-! The cap on expressions. Statements, methods and fields start their expressions with all levels left,
so the setting bounds all that a class evaluates. -/
namespace JavaSmith

open Generator

variable {limit : Nat} {site : Site} {p : Program}

namespace Generator

/-! Statements and blocks. -/

def BlocksLow (limit : Nat) (block : BlockGen) : Prop :=
  ∀ site length p, site.Within limit →
    Adds limit (block site length) p fun b p' => b.All (p'.Low limit)

structure Parts.Low (limit : Nat) (parts : Parts) : Prop where
  exprs : ExprsLow limit parts.expr
  methods : MethodsLow limit parts.newMethod

variable {parts : Parts} {nested : BlockGen}

theorem adds_valueType (c : Catalog) (p : Program) :
    Adds limit (valueType c) p fun _ _ => True := by
  apply Adds.draw
  rintro (_ | _)
  · apply Adds.draw
    intro base
    apply Adds.draw
    rintro (_ | _)
    · exact Adds.pure trivial
    · apply Adds.view
      apply Adds.draw
      intro n
      exact Adds.pure trivial
  · apply Adds.draw
    rintro (_ | _)
    · exact Adds.lastView trivial
    · apply Adds.view
      exact Adds.pure trivial

theorem adds_print (low : parts.Low limit) (within : site.Within limit) (p : Program) :
    Adds limit (print parts site) p fun o p' => o.elim True fun b => b.All (p'.Low limit) := by
  have printable : Adds limit (printableType site.catalog) p fun _ _ => True := by
    apply Adds.draw
    intro t
    exact Adds.pure trivial
  apply Adds.bind printable
  intro t p' _ _
  apply Adds.bind (low.exprs site t p' within)
  intro e p'' _ made
  exact Adds.unlessHole (Adds.pure (.leaf rfl rfl (made.mono within.heightLimit_lt.le)))

theorem adds_assignmentStatement (low : parts.Low limit) (within : site.Within limit) (p : Program) :
    Adds limit (assignmentStatement parts site) p fun o p' =>
      o.elim True fun b => b.All (p'.Low limit) := by
  apply Adds.drawDeclared
  rintro (_ | v)
  · exact Adds.pure trivial
  · apply Adds.view
    apply Adds.bind (low.exprs site _ p within)
    intro source p' _ made
    apply Adds.unlessHole
    apply Adds.bind (adds_assign made)
    intro e p'' _ assigned
    exact Adds.pure (.leaf rfl rfl (assigned.mono within.heightLimit_lt))

theorem adds_callStatement {call : Gen (Option ExprId)}
    (called : Adds limit call p fun o p' => o.elim True (p'.Low limit)) :
    Adds limit (callStatement call) p fun o p' => o.elim True fun b => b.All (p'.Low limit) := by
  apply Adds.bind called
  rintro (_ | e) p' _ made
  · exact Adds.pure trivial
  · exact Adds.pure (.leaf rfl rfl made)

theorem adds_localDeclaration (low : parts.Low limit) (within : site.Within limit) (p : Program) :
    Adds limit (localDeclaration parts site) p fun o p' =>
      o.elim True fun b => b.All (p'.Low limit) := by
  apply Adds.bind (adds_valueType site.catalog p)
  intro t p' _ _
  apply Adds.bind (low.exprs site t p' within)
  intro e p'' _ made
  apply Adds.unlessHole
  apply Adds.bind (Adds.roll _)
  intro isFinal q grows _
  have declared := q.extends_addInitializedLocal { Modifiers.none with isFinal } t
  apply Adds.step (.of_extends declared rfl rfl)
  have made := ((grows.low made).later declared).mono within.heightLimit_lt.le
  exact Adds.pure (.leaf rfl rfl made)

theorem adds_static (site : Site) (p : Program) :
    Adds limit (if site.ctx.isStatic then pure true else Gen.roll .staticProbability) p
      fun _ _ => True := by
  apply Adds.ite
  · exact fun _ => Adds.pure trivial
  · exact fun _ => Adds.roll _

theorem adds_fieldDeclaration (low : parts.Low limit) (within : site.Within limit) (p : Program) :
    Adds limit (fieldDeclaration parts site) p fun o p' =>
      o.elim True fun b => b.All (p'.Low limit) := by
  apply Adds.either (adds_static site p)
  intro isStatic p' _ _
  apply Adds.bind (Adds.roll _)
  intro isFinal p'' _ _
  apply Adds.bind (adds_valueType site.catalog p'')
  intro t q _ _
  have inner : (site.inInitializer isStatic).Within limit := within
  apply Adds.bind (low.exprs (site.inInitializer isStatic) t q inner)
  intro e q' _ made
  apply Adds.unlessHole
  apply Adds.step (.addInitializedField _ t (made.mono inner.heightLimit_lt.le))
  exact Adds.pure .nil

theorem adds_nestedLength (p : Program) : Adds limit nestedLength p fun _ _ => True := by
  apply Adds.view
  exact Adds.lastDraw fun _ => trivial

theorem adds_nested {α : Type} {f : Block → Gen α} {Q : α → Program → Prop} {inner : Site}
    (blocks : BlocksLow limit nested) (within : inner.Within limit)
    (h : ∀ body p', p.Grows limit p' → body.All (p'.Low limit) → Adds limit (f body) p' Q) :
    Adds limit (nestedLength >>= fun length => nested inner length >>= f) p Q := by
  apply Adds.bind (adds_nestedLength p)
  intro length p' grows _
  apply Adds.bind (blocks inner length p' within)
  intro body p'' grows' low
  exact h body p'' (grows.trans grows') low

theorem adds_branch (low : parts.Low limit) (blocks : BlocksLow limit nested)
    (within : site.Within limit) (p : Program) :
    Adds limit (branch parts nested site) p fun o p' =>
      o.elim True fun b => b.All (p'.Low limit) := by
  have inner : site.inBranch.Within limit := within
  apply Adds.bind (low.exprs site _ p within)
  intro condition p' _ made
  have made := made.mono within.heightLimit_lt.le
  apply Adds.unlessHole
  apply adds_nested blocks inner
  intro body q grows first
  apply Adds.bind (Adds.roll _)
  intro rolled q' grows' _
  have made := (grows.trans grows').low made
  have first := grows'.all first
  apply Adds.ite
  · intro _
    apply adds_nested blocks inner
    intro otherwise r grows second
    have made := List.forall_mem_singleton.2 (grows.low made)
    exact Adds.pure (.singleton (Statement.visit_ifElse condition body otherwise) made
      (.append (grows.all first) second))
  · intro _
    exact Adds.pure (.singleton rfl (List.forall_mem_singleton.2 made) first)

theorem adds_loopBound (site : Site) (maxIterations : Nat) (p : Program) :
    Adds limit (loopBound site maxIterations) p fun e p' => p'.Low 1 e := by
  apply Adds.bind (adds_attempt (Adds.roll _) fun _ => adds_reuse site _)
  rintro (_ | e) p' _ made
  · exact Builder.adds_build (n := 0) (by simp)
  · exact Adds.pure made

theorem adds_loop (kind : LoopKind) (blocks : BlocksLow limit nested) (within : site.Within limit)
    (p : Program) :
    Adds limit (loop kind nested site) p fun o p' =>
      o.elim True fun b => b.All (p'.Low limit) := by
  have room : 1 ≤ limit := Nat.lt_of_le_of_lt (Nat.zero_le _) within.heightLimit_lt
  apply Adds.view
  apply Adds.bind (adds_loopBound site _ p)
  intro bound p' _ made
  have made := made.mono room
  apply Adds.step (.of_extends p'.extends_addCounter rfl rfl)
  have inner : (site.inLoop (p.knobs.get .maxLoopIterations) p'.addCounter.1).Within limit := within
  apply adds_nested blocks inner
  intro body q grows nested
  have made := grows.low (made.later p'.extends_addCounter)
  exact Adds.pure (.singleton rfl (List.forall_mem_singleton.2 made) nested)

theorem adds_controlFlow (low : parts.Low limit) (blocks : BlocksLow limit nested)
    (within : site.Within limit) (p : Program) :
    Adds limit (controlFlow parts nested site) p fun o p' =>
      o.elim True fun b => b.All (p'.Low limit) := by
  apply Adds.view
  apply Adds.draw
  rintro (_ | _ | kind)
  · exact Adds.pure trivial
  · exact adds_branch low blocks within p
  · exact adds_loop kind blocks within p

theorem adds_statement (low : parts.Low limit) (blocks : BlocksLow limit nested)
    (within : site.Within limit) (p : Program) :
    Adds limit (statement parts nested site) p fun b p' => b.All (p'.Low limit) := by
  have called (p : Program) := adds_userCall low.methods within (argumentsLow low.exprs within) none p
  have each : ∀ a ∈ cascade parts
        (userCall parts.newMethod (argument parts.expr site) site none)
        (controlFlow parts nested site) site,
      ∀ p, Adds limit a p fun o p' => o.elim True fun b => b.All (p'.Low limit) := by
    intro a member p
    simp only [cascade, List.mem_cons, List.not_mem_nil, or_false] at member
    rcases member with rfl | rfl | rfl | rfl | rfl | rfl
    · exact adds_attempt (Adds.roll _) fun _ => adds_print low within
    · exact adds_attempt (Adds.roll _) fun _ => adds_assignmentStatement low within
    · exact adds_attempt (Adds.roll _) fun _ p =>
        adds_callStatement ((called p).lower within.heightLimit_lt.le)
    · exact adds_attempt (Adds.roll _) fun _ => adds_localDeclaration low within
    · exact adds_attempt (Adds.roll _) fun _ => adds_fieldDeclaration low within
    · exact adds_attempt (Adds.roll _) fun _ => adds_controlFlow low blocks within
  apply Adds.bind (adds_firstOf each p)
  rintro (_ | b) p' _ all
  · exact Adds.pure .nil
  · exact Adds.pure all

theorem blocksLow_blockStep (low : parts.Low limit) (blocks : BlocksLow limit nested) :
    BlocksLow limit (blockStep parts nested) := by
  intro site length p within
  induction length generalizing site p with
  | zero => exact Adds.pure .nil
  | succ length ih =>
    have inner : site.atStatement.Within limit := within
    apply Adds.bind (adds_statement low blocks inner p)
    intro statements p' _ all
    apply Adds.bind (ih (site.afterBlock statements) p' within)
    intro rest p'' grows others
    exact Adds.pure ((grows.all all).append others)

theorem blocksLow_blockAt (low : parts.Low limit) (levels : Nat) :
    BlocksLow limit (blockAt parts levels) := by
  induction levels with
  | zero => exact blocksLow_blockStep low fun _ _ _ _ => Adds.fail _
  | succ levels ih => exact blocksLow_blockStep low ih

theorem blocksLow (low : parts.Low limit) : BlocksLow limit (block parts) :=
  fun site => blocksLow_blockAt low site.ctx.blockLevels site

/-! Methods. -/

theorem adds_parameterTypes (c : Catalog) (n : Nat) (p : Program) :
    Adds limit (parameterTypes c n) p fun _ _ => True := by
  induction n generalizing p with
  | zero => exact Adds.pure trivial
  | succ n ih =>
    apply Adds.bind (adds_valueType c p)
    intro t p' _ _
    apply Adds.bind (ih p')
    intro rest p'' _ _
    exact Adds.pure trivial

theorem adds_resultType (c : Catalog) (wanted : Option Ty) (p : Program) :
    Adds limit (resultType c wanted) p fun _ _ => True := by
  cases wanted with
  | some t => exact Adds.pure trivial
  | none =>
    apply Adds.draw
    rintro (_ | _)
    · exact adds_valueType c p
    · exact Adds.pure trivial

theorem adds_parameters (ts : List Ty) (p : Program) :
    Adds limit (parameters ts) p fun _ _ => True := by
  induction ts generalizing p with
  | nil => exact Adds.pure trivial
  | cons t rest ih =>
    apply Adds.step (.of_extends (p.extends_addInitializedLocal .none t) rfl rfl)
    apply Adds.bind (ih _)
    intro ls p' _ _
    exact Adds.pure trivial

variable {block : BlockGen} {expr : ExprGen}

theorem adds_ending (exprs : ExprsLow limit expr) (within : site.Within limit) (returns : Ty)
    (p : Program) :
    Adds limit (ending expr site returns) p fun b p' => b.All (p'.Low limit) := by
  apply Adds.ite
  · intro _
    apply Adds.draw
    rintro (_ | _)
    · exact Adds.pure .nil
    · exact Adds.pure (.singleton rfl (by simp [Statement.roots]) .nil)
  · intro _
    have inner : site.atStatement.Within limit := within
    apply Adds.bind (exprs site.atStatement returns p inner)
    intro e p' _ made
    exact Adds.pure (.leaf rfl rfl (made.mono inner.heightLimit_lt.le))

theorem adds_methodBody (blocks : BlocksLow limit block) (exprs : ExprsLow limit expr)
    (within : site.Within limit) (length : Nat) (returns : Ty) (p : Program) :
    Adds limit (methodBody block expr site length returns) p fun b p' => b.All (p'.Low limit) := by
  apply Adds.bind (blocks site length p within)
  intro body p' _ all
  have inner : (site.afterBlock body).Within limit := within
  apply Adds.bind (adds_ending exprs inner returns p')
  intro last p'' grows others
  exact Adds.pure ((grows.all all).append others)

theorem methodsLow_methodStep (blocks : BlocksLow limit block) (exprs : ExprsLow limit expr) :
    MethodsLow limit (methodStep block expr) := by
  intro site caller wanted p within
  apply Adds.either (adds_static site p)
  intro isStatic p' _ _
  apply Adds.view
  apply Adds.draw
  intro arity
  apply Adds.bind (adds_parameterTypes site.catalog arity p')
  intro params p₁ _ _
  apply Adds.bind (adds_resultType site.catalog wanted p₁)
  intro returns p₂ _ _
  apply Adds.step (.of_extends (p₂.extends_addMethod ..) rfl rfl)
  apply Adds.bind (Adds.addCallEdge caller _)
  intro _ p₃ _ _
  apply Adds.bind (adds_parameters params p₃)
  intro locals p₄ _ _
  apply Adds.view
  apply Adds.draw
  intro length
  apply Adds.bind (adds_methodBody blocks exprs _ length returns p₄)
  · intro body p₅ _ all
    apply Adds.step (.of_extends (p₅.extends_recordCost ..) rfl rfl)
    apply Adds.step (.addBody (all.mono fun e low => low.later (p₅.extends_recordCost ..)))
    exact Adds.pure trivial
  · exact within

theorem methodsLow (limit n : Nat) : MethodsLow limit (methodAt n) := by
  induction n with
  | zero => exact fun _ _ _ _ _ => Adds.fail _
  | succ n ih => exact methodsLow_methodStep (blocksLow ⟨exprsLow ih, ih⟩) (exprsLow ih)

end Generator

/-! Classes. -/

theorem Gen.exprsLow (limit : Nat) : ExprsLow limit Gen.expr := by
  intro site t p within
  apply Adds.view
  exact Generator.exprsLow (methodsLow limit _) site t p within

theorem Gen.blocksLow (limit : Nat) : BlocksLow limit Gen.block := by
  intro site length p within
  apply Adds.view
  have methods := methodsLow limit (p.knobs.get .maxMethods - p.declared.userMethodCount)
  exact Generator.blocksLow ⟨Generator.exprsLow methods, methods⟩ site length p within

theorem Generator.adds_entryBody (c : Catalog) (p : Program)
    (room : 3 * p.knobs.get .maxExpressionDepth + 3 ≤ limit) :
    Adds limit (entryBody c) p fun _ p' => p'.entry.body.All (p'.Low limit) := by
  have within : (entrySite c p.knobs).Within limit := room
  apply Adds.view
  apply Adds.draw
  intro length
  apply Adds.bind (Gen.blocksLow limit (entrySite c p.knobs) length p within)
  intro body q _ all
  have recorded := q.extends_recordCost Program.entryId body
  have closed := Program.extends_closeEntry q body
  apply Adds.step (.of_extends recorded rfl rfl)
  apply Adds.last
  · exact .of_extends { Program.Extends.refl _ with } rfl rfl
  · exact all.mono fun e low => low.later closed

theorem Program.Low.height_le {e : ExprId} (low : p.Low site.ctx.heightLimit e) :
    (p.tree e).height ≤ 3 * (site.ctx.maxExprDepth - site.ctx.exprDepth) + 1 :=
  Nat.le_of_lt_succ low.height

theorem generated_roots_low (catalog : Catalog) (seed : UInt64) (config : Config) :
    ∃ p c, generateWith catalog seed config = .ok (p, c) ∧
      (∀ f ∈ p.fields, p.Low (3 * config.knobs.get .maxExpressionDepth + 3) f.initializer) ∧
      ∀ m ∈ p.methodsInOrder,
        m.body.All (p.Low (3 * config.knobs.get .maxExpressionDepth + 3)) := by
  apply generateWith_of_ensures catalog seed config
  intro c prepared
  have added := adds_entryBody c (.new config.className seed config.knobs) (Nat.le_refl _)
  apply (added.ensures (ensures_entryBody prepared seed)).mono
  rintro _ p ⟨⟨grows, entry⟩, _⟩
  constructor
  · intro f member
    exact (grows.fields f member).resolve_left (Array.not_mem_empty f)
  · intro m member
    rcases List.mem_append.1 member with complete | last
    · exact (grows.methods m (Array.mem_toList_iff.1 complete)).resolve_left (Array.not_mem_empty m)
    · rw [List.mem_singleton.1 last]
      exact entry

/-- An expression made with `d` of `D` levels used is at most `3 * (D - d) + 1` high, whatever the class,
the site, the type and the stream; where classes are generated, one is always made. Hence the
setting bounds all that statements and fields of a class evaluate, with one more step for an
assignment that is itself a statement. -/
theorem expression_height_le :
    (∀ (n : Nat) (site : Site) (t : Ty) (s s' : Draft) (e : ExprId),
      Generator.expr (methodAt n) site t s = .ok e s' →
      (s'.program.tree e).height ≤ 3 * (site.ctx.maxExprDepth - site.ctx.exprDepth) + 1) ∧
    (∀ (c : Catalog) (p : Program) (site : Site) (t : Ty), p.Sound c → site.Good c p → t.Valued →
      Ensures (Gen.expr site t) p fun e p' =>
        p'.isHole e = false ∧
        (p'.tree e).height ≤ 3 * (site.ctx.maxExprDepth - site.ctx.exprDepth) + 1) ∧
    ∀ (catalog : Catalog) (seed : UInt64) (config : Config),
      ∃ p c, generateWith catalog seed config = .ok (p, c) ∧
        (∀ f ∈ p.fields,
          (p.tree f.initializer).height ≤ 3 * config.knobs.get .maxExpressionDepth + 2) ∧
        ∀ m ∈ p.methodsInOrder, ∀ s ∈ visitBlock m.body, ∀ e ∈ s.roots,
          (p.tree e).height ≤ 3 * config.knobs.get .maxExpressionDepth + 2 := by
  refine ⟨?_, ?_, ?_⟩
  · intro n site t s s' e done
    have low := exprsLow (methodsLow _ n) site t s.program (Nat.le_refl _)
    exact (low s.stream e s' done).2.height_le
  · intro c p site t sound good valued
    have stage : Stage c (p.knobs.get .maxMethods - p.declared.userMethodCount) p :=
      ⟨sound, Nat.le_refl _⟩
    have made : Ensures (Gen.expr site t) p (Run (.expr site t) p) := by
      apply Ensures.view
      exact exprs (methodsAt _) site t p stage good valued
    apply ((Gen.exprsLow _ site t p (Nat.le_refl _)).ensures made).mono
    rintro e p' ⟨⟨_, low⟩, run⟩
    obtain ⟨stage', made⟩ := run.stage stage ⟨good, valued⟩
    exact ⟨stage'.sound.isHole made.inside, low.height_le⟩
  · intro catalog seed config
    obtain ⟨p, c, done, fields, methods⟩ := generated_roots_low catalog seed config
    refine ⟨p, c, done, fun f member => ?_, fun m member s visited e root => ?_⟩
    · exact Nat.le_of_lt_succ (fields f member).height
    · exact Nat.le_of_lt_succ (methods m member s visited e root).height

end JavaSmith
