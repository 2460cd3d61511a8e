import JavaSmith.Proofs.Generators.Statements

/-! Control flow and blocks. A place of a block is left empty only where something else than a print was
tried, since a print never declines. -/
namespace JavaSmith

open Generator JavaSmith.Random

theorem Context.blockLevels_enterBranch (c : Context) :
    c.enterBranch.blockLevels = c.blockLevels - 1 := by
  simp [blockLevels, enterBranch]; omega

theorem Context.blockLevels_enterLoop (c : Context) (iterations : Nat) :
    (c.enterLoop iterations).blockLevels = c.blockLevels - 1 := by
  simp [blockLevels, enterLoop]; omega

theorem Context.hasBlockLevel_iff (c : Context) : c.hasBlockLevel = true ↔ 0 < c.blockLevels := by
  simp only [hasBlockLevel, blockLevels, decide_eq_true_eq]; omega

variable {c : Catalog} {n : Nat} {p : Program} {site : Site}

namespace Generator

theorem ensures_nestedLength (p : Program) :
    Ensures nestedLength p fun length p' => length ≤ p.nestedLimit ∧ p' = p :=
  Ensures.knob (Ensures.lastDraw (always_length _))

/-- What is asked of a generator of blocks at sites with so many levels left. -/
def BlocksAt (c : Catalog) (n levels : Nat) (nested : BlockGen) : Prop :=
  ∀ site length p, Stage c n p → site.Good c p → site.ctx.blockLevels = levels →
    Ensures (nested site length) p (Run (.block site length) p)

variable {parts : Parts} {nested : BlockGen}

theorem ensures_branch (stage : Stage c n p) (good : site.Good c p) (at' : parts.At c n)
    (may : p.MayNotPrint) (allowed : p.Allows .controlFlowProbability)
    (level : site.ctx.hasBlockLevel = true) (share : 0 < p.knobs.get .ifShare)
    (blocks : BlocksAt c n (site.ctx.blockLevels - 1) nested) :
    Ensures (branch parts nested site) p (Filled site p) := by
  refine Ensures.bind (at'.exprs site _ p stage good trivial) fun condition p' run => ?_
  obtain ⟨stage', made⟩ := run.stage stage ⟨good, trivial⟩
  have good' := good.inBranch.later run.extends
  refine Ensures.isHole stage'.sound made.inside ?_
  refine Ensures.bind (ensures_nestedLength p') ?_
  rintro length _ ⟨short, rfl⟩
  rw [run.extends.nestedLimit] at short
  refine Ensures.bind (blocks site.inBranch length _ stage' good' site.ctx.blockLevels_enterBranch)
    fun body p'' run' => ?_
  obtain ⟨stage'', _⟩ := run'.stage stage' good'
  have h := run.extends.trans run'.extends
  refine Ensures.bind (Ensures.roll _) ?_
  rintro (_ | _) _ ⟨hit, _, rfl⟩
  · exact Ensures.pure (.ifThen may allowed level share run short run')
  · refine Ensures.bind (ensures_nestedLength _) ?_
    rintro length' _ ⟨short', rfl⟩
    rw [h.nestedLimit] at short'
    refine Ensures.bind (blocks site.inBranch length' _ stage'' (good'.later run'.extends)
      site.ctx.blockLevels_enterBranch) fun otherwise q run'' => ?_
    exact Ensures.pure
      (.ifElse may allowed level share run short run' (h.allows.1 (hit rfl)) short' run'')

theorem ensures_loopBound (good : site.Good c p) :
    Ensures (loopBound site (p.knobs.get .maxLoopIterations)) p (Run (.bound site) p) := by
  have reused : Ensures (attempt true (Gen.roll .stateReuseProbability)
      (reuse site (.loopBound (p.knobs.get .maxLoopIterations)))) p fun o p' =>
        o.elim (p' = p) fun e => Run (.bound site) p e p' := by
    refine ensures_attempt (Ensures.roll _) (fun _ => rfl) fun _ allowed => ?_
    refine (ensures_reuse site _ p).mono ?_
    rintro (_ | e) p' outcome
    · exact outcome
    · obtain ⟨v, offered, initialized, accepted, rfl, rfl⟩ := outcome
      exact Run.boundReuse allowed offered initialized accepted
  refine Ensures.bind reused ?_
  rintro (_ | e) p' outcome
  · obtain rfl : p' = p := outcome
    have valued := OfferedType.loopBound.valued good.prepared
    refine (Builder.ensures_build (b := .literal _) good.prepared.indexType valued.wellFormed ⟨rfl, rfl⟩ .nil).mono ?_
    rintro _ _ ⟨_, makes, rfl, rfl⟩
    cases makes with
    | literal _ fits _ => exact .boundLiteral rfl fits
  · exact Ensures.pure outcome

theorem ensures_loop {kind : LoopKind} {share : Nat} (stage : Stage c n p) (good : site.Good c p)
    (may : p.MayNotPrint) (allowed : p.Allows .controlFlowProbability)
    (level : site.ctx.hasBlockLevel = true)
    (member : (.loop kind, share) ∈ flowShares p.knobs site.ctx.costBudget) (positive : 0 < share)
    (blocks : BlocksAt c n (site.ctx.blockLevels - 1) nested) :
    Ensures (loop kind nested site) p (Filled site p) := by
  refine Ensures.knob ?_
  refine Ensures.bind (ensures_loopBound good) fun bound p' run => ?_
  obtain ⟨stage', _⟩ := run.stage stage good
  have counted := p'.extends_addCounter
  have stage'' := stage'.later counted stage'.sound.addCounter
  have good' := (good.later run.extends).inLoop (p.knobs.get .maxLoopIterations)
  refine Ensures.step ?_
  refine Ensures.bind (ensures_nestedLength _) ?_
  rintro length _ ⟨short, rfl⟩
  rw [(run.extends.trans counted).nestedLimit] at short
  refine Ensures.bind (blocks _ length _ stage'' good' (site.ctx.blockLevels_enterLoop _))
    fun body q run' => ?_
  exact Ensures.pure (.loop may allowed level member positive run rfl short run')

theorem ensures_controlFlow (stage : Stage c n p) (good : site.Good c p) (at' : parts.At c n)
    (may : p.MayNotPrint) (allowed : p.Allows .controlFlowProbability)
    (level : site.ctx.hasBlockLevel = true)
    (blocks : BlocksAt c n (site.ctx.blockLevels - 1) nested) :
    Ensures (controlFlow parts nested site) p (Filled site p) := by
  refine Ensures.view ?_
  refine Ensures.draw (always_chooseByShare _) ?_
  rintro (_ | _ | kind) chosen
  · exact Ensures.pure .noDetour
  · obtain ⟨share, member, positive⟩ := chosen _ rfl
    have share : 0 < p.knobs.get .ifShare := by
      simp only [flowShares, List.mem_cons, Prod.mk.injEq, reduceCtorEq, false_and, or_false,
        true_and, List.not_mem_nil] at member
      rwa [← member]
    exact ensures_branch stage good at' may allowed level share blocks
  · obtain ⟨share, member, positive⟩ := chosen _ rfl
    exact ensures_loop stage good may allowed level member positive blocks

structure PlaceAt (c : Catalog) (n : Nat) (site : Site) (call : Gen (Option ExprId))
    (flow : Gen (Option Block)) : Prop where
  call : ∀ p, Stage c n p → site.Good c p → p.Allows .methodCallProbability →
    Ensures call p (CallTried site none p)
  flow : ∀ p, Stage c n p → site.Good c p → p.MayNotPrint → p.Allows .controlFlowProbability →
    site.ctx.hasBlockLevel = true → Ensures flow p (Filled site p)

variable {call : Gen (Option ExprId)} {flow : Gen (Option Block)}

/-- All kinds of statement but prints give statements or lead nowhere. -/
theorem ensures_cascade (at' : parts.At c n) (place : PlaceAt c n site call flow) :
    ∀ a ∈ (cascade parts call flow site).tail, ∀ p,
      Stage c n p ∧ site.Good c p ∧ p.MayNotPrint → Ensures a p (Filled site p) := by
  intro a member p ⟨stage, good, may⟩
  have nothing : Filled site p none p := Run.noDetour
  simp only [cascade, List.tail_cons, List.mem_cons, List.not_mem_nil, or_false] at member
  rcases member with rfl | rfl | rfl | rfl | rfl
  · exact ensures_attempt (Ensures.roll _) (fun _ => nothing) fun _ allowed =>
      ensures_assignmentStatement stage good at' may allowed
  · refine ensures_attempt (Ensures.roll _) (fun _ => nothing) fun possible allowed => ?_
    rw [Bool.and_eq_true, decide_eq_true_eq] at possible
    exact ensures_callStatement may allowed possible.2 (place.call p stage good allowed)
  · exact ensures_attempt (Ensures.roll _) (fun _ => nothing) fun _ allowed =>
      ensures_localDeclaration stage good at' may allowed
  · exact ensures_attempt (Ensures.roll _) (fun _ => nothing) fun _ allowed =>
      ensures_fieldDeclaration stage good at' may allowed
  · exact ensures_attempt (Ensures.roll _) (fun _ => nothing) fun level allowed =>
      place.flow p stage good may allowed level

theorem ensures_place (stage : Stage c n p) (good : site.Good c p) (at' : parts.At c n)
    (handed : PlaceAt c n site call flow) :
    Ensures (place parts call flow site) p (Run (.statement site) p) := by
  have printed : Ensures (attempt true (Gen.roll .printProbability) (print parts site)) p
      fun o p' => o.elim (p.MayNotPrint ∧ p' = p) fun b => Run (.statement site) p b p' := by
    refine ensures_attempt (Ensures.roll _) (fun missed => ⟨missed rfl, rfl⟩) fun _ allowed => ?_
    refine (ensures_print stage good at' allowed).mono ?_
    rintro _ p' ⟨b, rfl, run⟩
    exact run
  have filled : Ensures (firstOf (cascade parts call flow site)) p fun o p' =>
      o.elim (p.MayNotPrint ∧ Run (.detour site none) p () p') fun b => Run (.statement site) p b p' := by
    refine Ensures.bind printed ?_
    rintro (_ | b) p' outcome
    · obtain ⟨may, rfl⟩ := outcome
      refine (ensures_firstOf (fun p => Stage c n p ∧ site.Good c p ∧ p.MayNotPrint) (Filled site)
        (fun p _ => Run.noDetour) ?_ ?_ (ensures_cascade at' handed) _ ⟨stage, good, may⟩).mono ?_
      · intro p p' ⟨stage, good, may⟩ outcome
        have detour : Run (.detour site none) p () p' := outcome
        refine ⟨(detour.stage stage ⟨good, by simp⟩).1, good.later detour.extends, ?_⟩
        exact detour.extends.mayNotPrint.2 may
      · rintro p p' (_ | b) p'' ⟨_, _, may⟩ first second
        · exact Run.detourTrans first second
        · exact Run.statementAfter may first second
      · rintro (_ | b) p' outcome
        · exact ⟨may, outcome⟩
        · exact outcome
    · exact Ensures.pure outcome
  refine Ensures.bind filled ?_
  rintro (_ | b) p' outcome
  · obtain ⟨may, detour⟩ := outcome
    exact Ensures.pure (.statementAfter may detour (.noStatement (detour.extends.mayNotPrint.2 may)))
  · exact Ensures.pure outcome

theorem ensures_statement (stage : Stage c n p) (good : site.Good c p) (at' : parts.At c n)
    (blocks : site.ctx.hasBlockLevel = true → BlocksAt c n (site.ctx.blockLevels - 1) nested) :
    Ensures (statement parts nested site) p (Run (.statement site) p) := by
  refine ensures_place stage good at' ?_
  constructor
  case call => exact fun p stage good allowed =>
    ensures_userCall stage good allowed (by simp) at'.methods (argumentsAt fun _ => at'.exprs.at _)
  case flow => exact fun p stage good may allowed level =>
    ensures_controlFlow stage good at' may allowed level (blocks level)

theorem ensures_blockStep (at' : parts.At c n) (length : Nat) (stage : Stage c n p)
    (good : site.Good c p)
    (blocks : site.ctx.hasBlockLevel = true → BlocksAt c n (site.ctx.blockLevels - 1) nested) :
    Ensures (blockStep parts nested site length) p (Run (.block site length) p) := by
  induction length generalizing p site with
  | zero => exact Ensures.pure .blockNil
  | succ length ih =>
    refine Ensures.bind (ensures_statement stage good.atStatement at' blocks) fun first p' run => ?_
    obtain ⟨stage', typed⟩ := run.stage stage good.atStatement
    have good' := (good.later run.extends).afterBlock (typed .void).declaresIn
    refine Ensures.bind (ih stage' good' blocks) fun rest p'' run' => ?_
    exact Ensures.pure (.blockCons run run')

/-- Every level finds blocks below it where it looks for them. -/
theorem blocksAt (at' : parts.At c n) (levels : Nat) :
    BlocksAt c n levels (blockAt parts levels) := by
  induction levels with
  | zero =>
    intro site length p stage good spent
    refine ensures_blockStep at' length stage good fun level => ?_
    have := site.ctx.hasBlockLevel_iff.1 level
    omega
  | succ levels ih =>
    intro site length p stage good left
    refine ensures_blockStep at' length stage good fun level => ?_
    rw [left]
    exact ih

def Blocks (c : Catalog) (n : Nat) (block : BlockGen) : Prop :=
  ∀ site length p, Stage c n p → site.Good c p →
    Ensures (block site length) p (Run (.block site length) p)

theorem blocks (at' : parts.At c n) : Blocks c n (block parts) :=
  fun site length p stage good => blocksAt at' _ site length p stage good rfl

end Generator
end JavaSmith
