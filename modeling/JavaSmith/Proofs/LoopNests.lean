import JavaSmith.Proofs.Budget

/-! Settings under which nothing but loops is written. The class is then one nest of loops, whatever the
seed, and its cost is known: every loop adds steps of its own to those of its body, which no budget
accounts for. -/
namespace JavaSmith

open Generator Program JavaSmith.Random

theorem always_length_one : Always (Generator.length 1) (· = 1) := by
  unfold Generator.length
  rw [if_neg Nat.one_ne_zero]
  refine Always.bind (always_index Nat.one_pos) fun n below => Always.pure ?_
  rw [Nat.lt_one_iff.1 below]

/-- Every block is one loop, as long as loops may be nested and afforded. -/
structure Knobs.LoopsOnly (knobs : Knobs) : Prop where
  noPrint : knobs.probability .printProbability = 0
  noAssignment : knobs.probability .assignmentProbability = 0
  noCall : knobs.probability .methodCallProbability = 0
  noVariable : knobs.probability .variableProbability = 0
  noField : knobs.probability .fieldProbability = 0
  noReuse : knobs.probability .stateReuseProbability = 0
  always : knobs.probability .controlFlowProbability = 100
  noBranch : knobs.get .ifShare = 0
  someLoop : 0 < knobs.get .forShare
  oneStatement : knobs.get .maxProgramLength = 1
  oneNested : knobs.get .maxMethodLength = 1

/-- Cost of so many nested loops, of up to `iterations` iterations each, with nothing within. -/
def nestCost (iterations : Nat) : (levels : Nat) → Nat
  | 0 => 0
  | levels + 1 => Cost.add (Cost.mul iterations (Cost.add 1 (nestCost iterations levels))) 2

variable {p : Program} {site : Site} {parts : Parts} {nested : BlockGen} {c : Catalog}

theorem ensures_attempt_never {α : Type} {allowed : Bool} {k : Knob} {make : Gen (Option α)}
    (never : p.knobs.probability k = 0) :
    Ensures (attempt allowed (Gen.roll k) make) p fun o p' => o = none ∧ p' = p := by
  refine ensures_attempt (Ensures.roll k) (fun _ => ⟨rfl, rfl⟩) fun _ chance => ?_
  exact absurd chance (Nat.not_lt_of_le (Nat.le_of_eq never))

theorem ensures_firstOf_declined {α : Type} {first : Gen (Option α)} {rest : List (Gen (Option α))}
    {Q : Option α → Program → Prop}
    (declined : Ensures first p fun o p' => o = none ∧ p' = p) (h : Ensures (firstOf rest) p Q) :
    Ensures (firstOf (first :: rest)) p Q := by
  refine Ensures.bind declined ?_
  rintro _ _ ⟨rfl, rfl⟩
  exact h

theorem ensures_statement_of_loopsOnly (only : p.knobs.LoopsOnly) {Q : Block → Program → Prop}
    (flow : Ensures (attempt site.ctx.hasBlockLevel (Gen.roll .controlFlowProbability)
      (controlFlow parts nested site)) p fun o p' => Q (o.getD []) p') :
    Ensures (statement parts nested site) p Q := by
  have tried : Ensures (firstOf (cascade parts
      (userCall parts.newMethod (argument parts.expr site) site none)
      (controlFlow parts nested site) site)) p fun o p' => Q (o.getD []) p' := by
    refine ensures_firstOf_declined (ensures_attempt_never only.noPrint) ?_
    refine ensures_firstOf_declined (ensures_attempt_never only.noAssignment) ?_
    refine ensures_firstOf_declined (ensures_attempt_never only.noCall) ?_
    refine ensures_firstOf_declined (ensures_attempt_never only.noVariable) ?_
    refine ensures_firstOf_declined (ensures_attempt_never only.noField) ?_
    refine Ensures.bind flow ?_
    rintro (_ | b) p' holds
    · exact Ensures.pure holds
    · exact Ensures.pure holds
  refine Ensures.bind tried ?_
  rintro (_ | b) p' holds
  · exact Ensures.pure holds
  · exact Ensures.pure holds

theorem ensures_blockStep_one (only : p.knobs.LoopsOnly) {Q : Block → Program → Prop}
    (flow : Ensures (attempt site.ctx.hasBlockLevel (Gen.roll .controlFlowProbability)
      (controlFlow parts nested site.atStatement)) p fun o p' => Q (o.getD []) p') :
    Ensures (blockStep parts nested site 1) p Q := by
  refine Ensures.bind (ensures_statement_of_loopsOnly only flow)
    fun first p' holds => ?_
  refine Ensures.bind (Ensures.pure ⟨rfl, rfl⟩ : Ensures (pure []) p' fun b q => b = [] ∧ q = p') ?_
  rintro _ _ ⟨rfl, rfl⟩
  refine Ensures.pure ?_
  rw [List.append_nil]
  exact holds

theorem ensures_nestedLength_one (short : p.knobs.get .maxMethodLength = 1) :
    Ensures nestedLength p fun n p' => n = 1 ∧ p' = p := by
  refine Ensures.knob ?_
  rw [short]
  exact Ensures.lastDraw always_length_one

theorem always_flow_of_loopsOnly {knobs : Knobs} {budget : Nat} (only : knobs.LoopsOnly)
    (affordable : knobs.get .maxLoopIterations ≤ budget) :
    Always (chooseByShare (flowShares knobs budget)) fun o => ∃ kind, o = some (.loop kind) := by
  have share : 0 < totalWeight (flowShares knobs budget) := by
    have := only.someLoop
    simp only [flowShares, affordable, if_true, totalWeight]
    omega
  intro stream
  have some := always_chooseByShare_isSome share stream
  have chosen := always_chooseByShare (flowShares knobs budget) stream
  cases drawn : (chooseByShare (flowShares knobs budget) stream).1 with
  | none =>
    rw [drawn] at some
    contradiction
  | some flow =>
    cases flow with
    | loop kind => exact ⟨kind, rfl⟩
    | branch =>
      obtain ⟨weight, member, positive⟩ := chosen _ drawn
      simp only [flowShares, List.mem_cons, Prod.mk.injEq, reduceCtorEq, false_and, or_false,
        true_and, List.not_mem_nil] at member
      rw [member, only.noBranch] at positive
      exact absurd positive (Nat.lt_irrefl 0)

theorem ensures_blockStep_none (only : p.knobs.LoopsOnly) (level : site.ctx.hasBlockLevel = false)
    {Q : Block → Program → Prop} (holds : Q [] p) : Ensures (blockStep parts nested site 1) p Q := by
  refine ensures_blockStep_one only ?_
  rw [level]
  exact Ensures.pure holds

theorem ensures_blockStep_loop (only : p.knobs.LoopsOnly) (level : site.ctx.hasBlockLevel = true)
    (affordable : p.knobs.get .maxLoopIterations ≤ site.ctx.costBudget)
    {Q : Block → Program → Prop}
    (looped : ∀ kind, Ensures (loop kind nested site.atStatement) p fun o p' => Q (o.getD []) p') :
    Ensures (blockStep parts nested site 1) p Q := by
  refine ensures_blockStep_one only ?_
  refine ensures_attempt (Ensures.roll _) (fun missed => ?_) fun _ _ => ?_
  · have := missed level
    rw [only.always] at this
    contradiction
  · refine Ensures.view ?_
    refine Ensures.draw (always_flow_of_loopsOnly only affordable) ?_
    rintro _ ⟨kind, rfl⟩
    exact looped kind

theorem ensures_loop_of_loopsOnly {kind : LoopKind} (good : site.Good c p) (only : p.knobs.LoopsOnly)
    {Q : Block → Program → Prop}
    (inner : ∀ (v : Value) (site' : Site) (p' : Program),
      v.fits (.loopBound (p.knobs.get .maxLoopIterations)) = true →
      p' = (p.addConstant v (.loopBound (p.knobs.get .maxLoopIterations))).2.addCounter.2 →
      site'.Good c p' → site'.ctx = site.ctx.enterLoop (p.knobs.get .maxLoopIterations) →
      Ensures (nested site' 1) p' fun b q =>
        Q [.loop kind p.declared.locals.size p.arena.size b] q) :
    Ensures (loop kind nested site) p fun o p' => Q (o.getD []) p' := by
  refine Ensures.knob ?_
  refine Ensures.bind (ensures_loopBound good) fun bound p' run => ?_
  have first := run.extends
  cases run with
  | boundReuse chance => exact absurd chance (Nat.not_lt_of_le (Nat.le_of_eq only.noReuse))
  | @boundLiteral _ _ _ v type fits =>
    subst type
    refine Ensures.step ?_
    refine Ensures.bind (ensures_nestedLength_one only.oneNested) ?_
    rintro _ _ ⟨rfl, rfl⟩
    refine Ensures.bind (inner v _ _ fits rfl ((good.later first).inLoop _) rfl) fun body q holds => ?_
    exact Ensures.pure holds

theorem blockCost_loop {q : Program} {kind : LoopKind} {counter : LocalId} {v : Value} {b : Block}
    {levels : Nat}
    (later : (p.addConstant v (.loopBound (p.knobs.get .maxLoopIterations))).2.Extends q)
    (cost : q.blockCost b = nestCost (p.knobs.get .maxLoopIterations) levels) :
    q.blockCost [.loop kind counter p.arena.size b] =
      nestCost (p.knobs.get .maxLoopIterations) (levels + 1) := by
  have bounds := p.boundsLoop_addConstant v
  have iterations : q.iterationBound p.arena.size = p.knobs.get .maxLoopIterations := by
    have least : 1 ≤ p.knobs.get .maxLoopIterations := (p.knobs.inRange .maxLoopIterations).1
    have type : q.typeOf p.arena.size = .loopBound (p.knobs.get .maxLoopIterations) :=
      (later.typeOf bounds.inside).trans (p.typeOf_add _ _)
    rw [iterationBound_of_max? type (if_pos (by omega))]
    omega
  change Cost.add (q.statementCost (.loop kind counter p.arena.size b)) 0 = _
  have free : q.exprCost p.arena.size = 0 := (bounds.later later).exprCost_eq_zero
  rw [statementCost, iterations, free, cost]
  exact Cost.capped_of_le (Cost.add_le_limit ..)

theorem ensures_nest {levels : Nat} (good : site.Good c p) (only : p.knobs.LoopsOnly)
    (left : site.ctx.blockLevels = levels)
    (affordable : p.knobs.get .maxLoopIterations ^ levels ≤ site.ctx.costBudget) :
    Ensures (blockAt parts levels site 1) p fun b p' => p.Extends p' ∧
      p'.blockCost b = nestCost (p.knobs.get .maxLoopIterations) levels := by
  induction levels generalizing site p with
  | zero =>
    refine ensures_blockStep_none only ?_ ⟨.refl p, rfl⟩
    rw [← Bool.not_eq_true, Context.hasBlockLevel_iff]
    omega
  | succ levels ih =>
    have least : 1 ≤ p.knobs.get .maxLoopIterations := (p.knobs.inRange .maxLoopIterations).1
    have level := site.ctx.hasBlockLevel_iff.2 (by omega)
    refine ensures_blockStep_loop only level ?_ fun kind => ?_
    · exact Nat.le_trans (Nat.le_self_pow (Nat.succ_ne_zero levels) _) affordable
    refine ensures_loop_of_loopsOnly (Q := fun b p' => p.Extends p' ∧
      p'.blockCost b = nestCost (p.knobs.get .maxLoopIterations) (levels + 1))
      good.atStatement only fun v site' p' _ made good' ctx => ?_
    have first : p.Extends (p.addConstant v (.loopBound (p.knobs.get .maxLoopIterations))).2 :=
      p.extends_add ..
    have counted := extends_addCounter (p.addConstant v (.loopBound (p.knobs.get .maxLoopIterations))).2
    have knobs : p'.knobs = p.knobs := made ▸ (first.trans counted).knobs
    refine (ih good' (knobs ▸ only) ?_ ?_).mono fun b q ⟨second, cost⟩ => ?_
    · rw [ctx, Context.blockLevels_enterLoop]
      change site.ctx.blockLevels - 1 = levels
      omega
    · rw [ctx, knobs]
      change _ ≤ site.ctx.costBudget / max (p.knobs.get .maxLoopIterations) 1
      rw [Nat.max_eq_left least, Nat.le_div_iff_mul_le least, ← Nat.pow_succ]
      exact affordable
    · subst made
      have later := counted.trans second
      exact ⟨first.trans later, blockCost_loop later cost⟩

/-- The entry has one statement, whose block decides what the class is. -/
theorem generateWith_of_loopsOnly (catalog : Catalog) (seed : UInt64) (config : Config)
    (only : config.knobs.LoopsOnly) {Q : Block → Program → Prop}
    (h : ∀ c : Catalog, c.Prepared config.knobs →
      Ensures (Gen.block (entrySite c config.knobs) 1) (.new config.className seed config.knobs) Q) :
    ∃ p c, generateWith catalog seed config = .ok (p, c) ∧ ∃ b q, Q b q ∧ p = q.closeEntry b := by
  refine generateWith_of_ensures catalog seed config fun c prepared => ?_
  refine Ensures.view ?_
  change Ensures (Gen.draw (Generator.length (config.knobs.get .maxProgramLength)) >>= _) _ _
  rw [only.oneStatement]
  refine Ensures.draw always_length_one ?_
  rintro _ rfl
  refine Ensures.bind (h c prepared) fun b q holds => ?_
  exact Ensures.step (Ensures.last ⟨b, q, holds, rfl⟩)

/-- Whatever the seed, the entry is one nest of loops. -/
theorem generated_nestCost (catalog : Catalog) (seed : UInt64) (config : Config)
    (only : config.knobs.LoopsOnly)
    (affordable : config.knobs.get .maxLoopIterations ^ config.knobs.get .maxControlFlowDepth ≤
      runBudget) :
    ∃ p c, generateWith catalog seed config = .ok (p, c) ∧
      (p.declared.method entryId).cost =
        nestCost (config.knobs.get .maxLoopIterations) (config.knobs.get .maxControlFlowDepth) := by
  have nest (c : Catalog) (prepared : c.Prepared config.knobs) :
      Ensures (Gen.block (entrySite c config.knobs) 1)
        (.new config.className seed config.knobs) fun b p =>
          (Program.new config.className seed config.knobs).Extends p ∧ p.blockCost b = nestCost
            (config.knobs.get .maxLoopIterations) (config.knobs.get .maxControlFlowDepth) := by
    refine Ensures.view ?_
    exact ensures_nest (good_entrySite prepared _ seed) only rfl affordable
  obtain ⟨p, c, done, body, q, ⟨later, cost⟩, rfl⟩ :=
    generateWith_of_loopsOnly catalog seed config only nest
  refine ⟨_, c, done, ?_⟩
  have inside : entryId < q.declared.methods.size :=
    Nat.lt_of_lt_of_le Nat.zero_lt_one later.methods_size
  exact (Declarations.cost_setCost _ inside _).trans cost

/-- Three nested loops of up to 101 iterations each. -/
def threeLoops : Knobs :=
  .ofValues (fun
    | .printProbability | .assignmentProbability | .methodCallProbability | .variableProbability
    | .fieldProbability | .stateReuseProbability | .ifShare | .whileShare | .doWhileShare => 0
    | .controlFlowProbability => 100
    | .forShare | .maxProgramLength | .maxMethodLength => 1
    | .maxControlFlowDepth => 3
    | .maxLoopIterations => 101
    | k => k.spec.default) fun k => by cases k <;> decide

theorem loopsOnly_threeLoops : threeLoops.LoopsOnly := by
  constructor <;> decide +kernel

/-- The loops take more steps than a run of the entry may execute. -/
theorem threeLoops_exceed_runBudget : ∃ p c,
    generateWith .new 171 ⟨"T", threeLoops⟩ = .ok (p, c) ∧
      runBudget < (p.declared.method entryId).cost := by
  obtain ⟨p, c, done, cost⟩ :=
    generated_nestCost .new 171 ⟨"T", threeLoops⟩ loopsOnly_threeLoops (by decide +kernel)
  refine ⟨p, c, done, ?_⟩
  rw [cost]
  decide +kernel

end JavaSmith
