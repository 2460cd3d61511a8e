import JavaSmith.Proofs.Generators.Calls
import JavaSmith.Proofs.Generators.Operations

/-! Expressions. Of every type that values can have some builder needs literals alone, and neither makes
null nor calls the library. It is among those that are tried, so every expression gets a value. -/
namespace JavaSmith

open Generator JavaSmith.Random

theorem Context.hasExprLevel_iff (c : Context) : c.hasExprLevel = true ↔ 0 < c.exprLevels := by
  simp only [hasExprLevel, exprLevels, decide_eq_true_eq]; omega

variable {c : Catalog} {n : Nat} {p : Program} {site : Site} {t : Ty}

namespace Generator

/-! Attempts. -/

theorem ensures_attempt {α : Type} {allowed : Bool} {roll : Gen Bool} {make : Gen (Option α)}
    {Q : Option α → Program → Prop} {Rolled Missed : Prop}
    (rolled : Ensures roll p fun b p' => (b = true → Rolled) ∧ (b = false → Missed) ∧ p' = p)
    (declined : (allowed = true → Missed) → Q none p)
    (made : allowed = true → Rolled → Ensures make p Q) :
    Ensures (attempt allowed roll make) p Q := by
  unfold attempt
  cases allowed with
  | false => exact Ensures.pure (declined fun h => by contradiction)
  | true =>
    refine Ensures.bind rolled ?_
    rintro (_ | _) _ ⟨hit, miss, rfl⟩
    · exact Ensures.pure (declined fun _ => miss rfl)
    · exact made rfl (hit rfl)

theorem ensures_firstOf {α : Type} (Inv : Program → Prop)
    (Outcome : Program → Option α → Program → Prop) {attempts : List (Gen (Option α))}
    (start : ∀ p, Inv p → Outcome p none p) (keeps : ∀ p p', Inv p → Outcome p none p' → Inv p')
    (later : ∀ p p' o p'', Inv p → Outcome p none p' → Outcome p' o p'' → Outcome p o p'')
    (each : ∀ a ∈ attempts, ∀ p, Inv p → Ensures a p (Outcome p)) (p : Program) (inv : Inv p) :
    Ensures (firstOf attempts) p (Outcome p) := by
  induction attempts generalizing p with
  | nil => exact Ensures.pure (start p inv)
  | cons first rest ih =>
    refine Ensures.bind (each first List.mem_cons_self p inv) ?_
    rintro (_ | a) p' outcome
    · have others := ih (fun a member => each a (List.mem_cons_of_mem _ member)) p'
        (keeps p p' inv outcome)
      exact others.mono fun o p'' => later p p' o p'' inv outcome
    · exact Ensures.pure outcome

/-- An expression, or the detour that was taken where none comes about. -/
def Tried (site : Site) (t : Ty) (p : Program) (o : Option ExprId) (p' : Program) : Prop :=
  o.elim (Run (.detour site (some t)) p () p') fun e => Run (.expr site t) p e p'

theorem ensures_valued {x : Gen ExprId} (stage : Stage c n p) (good : site.Good c p)
    (valued : t.Valued) (made : Ensures x p (Run (.expr site t) p)) :
    Ensures (x >>= Generator.valued) p (Tried site t p) := by
  refine Ensures.bind made fun e p' run => ?_
  obtain ⟨stage', made⟩ := run.stage stage ⟨good, valued⟩
  exact Ensures.isHole stage'.sound made.inside (Ensures.pure run)

theorem ensures_reuse (site : Site) (t : Ty) (p : Program) :
    Ensures (reuse site t) p fun o p' =>
      o.elim (p' = p) fun e => ∃ v, site.scope.Offers p.declared site.ctx v ∧
        p.declared.isInitialized v = true ∧ t.accepts (p.declared.typeOf v) = true ∧
        e = (p.addRead v).1 ∧ p' = (p.addRead v).2 := by
  refine Ensures.drawDeclared (Scope.always_initializedOfType _ _ _ _) ?_
  rintro (_ | v) found
  · exact Ensures.pure rfl
  · obtain ⟨offered, initialized, accepted⟩ := found v rfl
    refine Ensures.step ?_
    exact Ensures.pure ⟨v, offered, initialized, accepted, rfl, rfl⟩

theorem ensures_rollAssignment (p : Program) :
    Ensures rollAssignment p fun b p' =>
      (b = true → p.Allows .assignmentProbability) ∧ (b = false → True) ∧ p' = p := by
  refine Ensures.view ?_
  refine (Ensures.lastDraw (always_roll _)).mono fun b p' ⟨⟨hit, _⟩, same⟩ => ?_
  refine ⟨fun h => ?_, fun _ => trivial, same⟩
  have := hit h
  unfold Program.Allows
  omega

variable {sub : ExprGen} {argument : ArgumentGen}

theorem ensures_assignment (stage : Stage c n p) (good : site.Good c p)
    (level : site.ctx.hasExprLevel = true) (nonnull : site.forbidsNullOf t = false)
    (allowed : p.Allows .assignmentProbability) (operands : OperandsAt c n site sub) :
    Ensures (assignment sub site t) p (Tried site t p) := by
  refine Ensures.drawDeclared (Scope.always_writableOfType _ _ _ _) ?_
  rintro (_ | v) found
  · exact Ensures.pure .noDetour
  · obtain ⟨offered, writable, accepted⟩ := found v rfl
    have declared := good.declares offered
    have valued := stage.sound.vars v declared
    refine Ensures.view ?_
    refine Ensures.bind (operands level _ _ p stage good.deeper valued site.ctx.exprLevels_deeper)
      fun source p' run => ?_
    obtain ⟨stage', made⟩ := run.stage stage ⟨good.deeper, valued⟩
    refine Ensures.isHole stage'.sound made.inside ?_
    have writable' := (run.extends.isReadOnly declared).trans writable
    refine Ensures.stepUnless (Program.assignmentRefusal?_eq_none_iff.2 writable') ?_
    exact Ensures.pure (.assign level nonnull allowed offered writable accepted run)

structure ChoiceAt (c : Catalog) (n : Nat) (site : Site) (t : Ty) (call : Gen (Option ExprId))
    (operator cast builders : Gen ExprId) : Prop where
  call : ∀ p, Stage c n p → site.Good c p → p.Allows .methodCallProbability →
    Ensures call p (CallTried site (some t) p)
  operator : ∀ p, Stage c n p → site.Good c p → site.ctx.hasExprLevel = true →
    p.Allows .binaryOpProbability → isOperatorResult t = true →
    Ensures operator p (Run (.expr site t) p)
  cast : ∀ p, Stage c n p → site.Good c p → site.ctx.hasExprLevel = true →
    p.Allows .castProbability → isNumericPrimitive t = true → Ensures cast p (Run (.expr site t) p)
  builders : ∀ p, Stage c n p → site.Good c p → Ensures builders p (Run (.expr site t) p)

variable {call : Gen (Option ExprId)} {operator cast builders : Gen ExprId}

theorem ensures_attempts (valued : t.Valued) (choice : ChoiceAt c n site t call operator cast builders)
    (operands : OperandsAt c n site sub) :
    ∀ a ∈ attempts call operator cast sub site t, ∀ p, Stage c n p ∧ site.Good c p →
      Ensures a p (Tried site t p) := by
  intro a member p ⟨stage, good⟩
  have nothing : Tried site t p none p := Run.noDetour
  unfold attempts at member
  dsimp only at member
  rcases List.mem_cons.1 member with rfl | member
  · refine ensures_attempt (Ensures.roll _) (fun _ => nothing) fun _ allowed => ?_
    refine (ensures_reuse site t p).mono ?_
    rintro (_ | e) p' outcome
    · obtain rfl : p' = p := outcome
      exact nothing
    · obtain ⟨v, offered, initialized, accepted, rfl, rfl⟩ := outcome
      exact Run.reuse allowed offered initialized accepted
  · split at member
    · next level =>
      simp only [List.mem_cons, List.not_mem_nil, or_false] at member
      rcases member with rfl | rfl | rfl | rfl
      · refine ensures_attempt (Ensures.roll _) (fun _ => nothing) fun possible allowed => ?_
        rw [Bool.and_eq_true, Bool.not_eq_true'] at possible
        refine (choice.call p stage good allowed).mono ?_
        rintro (_ | e) p' outcome
        · exact outcome
        · exact Run.exprCall level possible.2 allowed outcome
      · refine ensures_attempt (ensures_rollAssignment p) (fun _ => nothing)
          fun possible allowed => ?_
        rw [Bool.not_eq_true'] at possible
        exact ensures_assignment stage good level possible allowed operands
      · refine ensures_attempt (Ensures.roll _) (fun _ => nothing) fun possible allowed => ?_
        exact ensures_valued stage good valued (choice.operator p stage good level allowed possible)
      · refine ensures_attempt (Ensures.roll _) (fun _ => nothing) fun possible allowed => ?_
        exact ensures_valued stage good valued (choice.cast p stage good level allowed possible)
    · contradiction

/-! Builders. -/

/-- Some own builder makes a value out of literals alone. -/
theorem exists_ownBuilder {knobs : Knobs} (prepared : c.Prepared knobs) (valued : t.Valued) :
    ∃ b ∈ c.ownBuilders t, b.isNull = false ∧ b.isExternal = false ∧
      ∀ u ∈ b.parameters, u.hasLiteral = true := by
  cases t with
  | void => contradiction
  | primitive | restricted | string =>
    exact ⟨.literal _, List.mem_append_right _ List.mem_cons_self, rfl, rfl,
      fun u none => by contradiction⟩
  | boxed k =>
    refine ⟨.boxing k, List.mem_append_right _ List.mem_cons_self, rfl, rfl, fun u member => ?_⟩
    rw [List.mem_singleton.1 member]
    rfl
  | object =>
    exact ⟨.construct .object [], List.mem_append_right _ List.mem_cons_self, rfl, rfl,
      fun u none => by contradiction⟩
  | date =>
    refine ⟨.construct .date [.primitive .long], List.mem_append_right _ List.mem_cons_self, rfl, rfl,
      fun u member => ?_⟩
    rw [List.mem_singleton.1 member]
    rfl
  | named d isFinal constructors =>
    exact ⟨.construct _ [], List.mem_append_right _ (List.mem_map.2 ⟨[], valued.1, rfl⟩), rfl, rfl,
      fun u none => by contradiction⟩
  | array component k =>
    refine ⟨.newArray _ c.indexType, List.mem_append_right _ List.mem_cons_self, rfl, rfl,
      fun u member => ?_⟩
    rw [List.eq_of_mem_replicate member, prepared.indexType]
    rfl

theorem exists_candidate (prepared : c.Prepared p.knobs) (catalog : site.catalog = c)
    (valued : t.Valued) (allowExternal : Bool) :
    ∃ b ∈ candidates site t allowExternal, ∀ u ∈ b.parameters, u.hasLiteral = true := by
  obtain ⟨b, own, notNull, notExternal, literals⟩ := exists_ownBuilder prepared valued
  refine ⟨b, List.mem_filter.2 ⟨List.mem_append_left _ (catalog ▸ own), ?_⟩, literals⟩
  rw [notNull, notExternal]
  simp

theorem ensures_firstSatisfied {builders : List Builder} {allowExternal : Bool}
    (stage : Stage c n p) (good : site.Good c p) (valued : t.Valued)
    (allowed : allowExternal = true → p.Allows .externalCallProbability)
    (offered : ∀ b ∈ builders, b ∈ candidates site t allowExternal)
    (each : ArgumentsAt c n site argument) :
    Ensures (firstSatisfied argument builders) p fun o p' =>
      o.elim (∀ b ∈ builders, ∃ u ∈ b.parameters, u.hasLiteral = false) fun (b, args) =>
        b ∈ candidates site t allowExternal ∧ ∃ q, Run (.detour site (some t)) p () q ∧
          Run (.arguments site b.refusesNull b.parameters) q args p' := by
  induction builders generalizing p with
  | nil => exact Ensures.pure fun b none => by contradiction
  | cons b rest ih =>
    have candidate := offered b List.mem_cons_self
    have serves := good.serves candidate
    have parameters := serves.valued_parameters good.prepared valued
    refine Ensures.bind (ensures_arguments stage good parameters each) ?_
    rintro (_ | args) p' made
    · obtain ⟨lacking, ts, es, before, run⟩ := made
      have detour : Run (.detour site (some t)) p () p' := .detourBuilder allowed candidate before run
      obtain ⟨stage', _⟩ := detour.stage stage ⟨good, valued.wanted⟩
      refine (ih stage' (good.later detour.extends)
        (fun external => detour.extends.allows.2 (allowed external))
        fun b member => offered b (List.mem_cons_of_mem _ member)).mono ?_
      rintro (_ | ⟨b, args⟩) p'' outcome
      · intro b member
        rcases List.mem_cons.1 member with rfl | later
        · exact lacking
        · exact outcome b later
      · obtain ⟨candidate, q, detour', arguments⟩ := outcome
        exact ⟨candidate, q, .detourTrans detour detour', arguments⟩
    · exact Ensures.pure ⟨candidate, p, .noDetour, made⟩

/-- The builders of a type never leave it without a value. -/
theorem ensures_fromBuilders (stage : Stage c n p) (good : site.Good c p) (valued : t.Valued)
    (each : ArgumentsAt c n site argument) :
    Ensures (fromBuilders argument site t) p (Run (.expr site t) p) := by
  refine Ensures.bind (Ensures.roll _) ?_
  rintro allowExternal _ ⟨allowed, _, rfl⟩
  refine Ensures.draw (shuffle_perm _) fun builders perm => ?_
  refine Ensures.bind (ensures_firstSatisfied stage good valued allowed
    (fun b member => perm.mem_iff.1 member) each) ?_
  rintro (_ | ⟨b, args⟩) p' outcome
  · obtain ⟨b, candidate, literals⟩ := exists_candidate good.prepared good.catalog valued allowExternal
    obtain ⟨u, member, none⟩ := outcome b (perm.mem_iff.2 candidate)
    rw [literals u member] at none
    contradiction
  · obtain ⟨candidate, q, detour, arguments⟩ := outcome
    have serves := good.serves candidate
    obtain ⟨stage', _⟩ := detour.stage stage ⟨good, valued.wanted⟩
    have good' := good.later detour.extends
    obtain ⟨_, given⟩ := arguments.stage stage'
      ⟨good', serves.valued_parameters good.prepared valued⟩
    dsimp only
    rw [if_pos (serves.accepts_result valued.wellFormed)]
    refine (Builder.ensures_build (good'.later arguments.extends).prepared.indexType valued.wellFormed serves given).mono ?_
    rintro _ _ ⟨node, makes, rfl, rfl⟩
    refine .exprAfter detour (.build ?_ candidate arguments makes)
    exact fun external => detour.extends.allows.2 (allowed external)

/-! Levels. -/

theorem ensures_choice (stage : Stage c n p) (good : site.Good c p) (valued : t.Valued)
    (handed : ChoiceAt c n site t call operator cast builders) (operands : OperandsAt c n site sub) :
    Ensures (choice call operator cast builders sub site t) p (Run (.expr site t) p) := by
  unfold choice
  rw [valued.isVoid]
  have tried := ensures_firstOf (fun p => Stage c n p ∧ site.Good c p) (Tried site t)
    (fun p _ => Run.noDetour) ?_ ?_ (ensures_attempts valued handed operands) p ⟨stage, good⟩
  · refine Ensures.bind tried ?_
    rintro (_ | e) p' outcome
    · have detour : Run (.detour site (some t)) p () p' := outcome
      obtain ⟨stage', _⟩ := detour.stage stage ⟨good, valued.wanted⟩
      exact (handed.builders p' stage' (good.later detour.extends)).mono
        fun e p'' run => .exprAfter detour run
    · exact Ensures.pure outcome
  · intro p p' ⟨stage, good⟩ outcome
    have detour : Run (.detour site (some t)) p () p' := outcome
    exact ⟨(detour.stage stage ⟨good, valued.wanted⟩).1, good.later detour.extends⟩
  · rintro p p' (_ | e) p'' _ first second
    · exact Run.detourTrans first second
    · exact Run.exprAfter first second

variable {newMethod : MethodGen}

theorem ensures_exprStep (stage : Stage c n p) (good : site.Good c p) (valued : t.Valued)
    (methods : MethodsAt c n newMethod) (operands : OperandsAt c n site sub) :
    Ensures (exprStep newMethod sub site t) p (Run (.expr site t) p) := by
  refine ensures_choice stage good valued ?_ operands
  constructor
  case call => exact fun p stage good allowed =>
    ensures_userCall stage good allowed valued.wanted methods (argumentsAt operands)
  case operator => exact fun p stage good level allowed possible =>
    ensures_binaryOp stage good level allowed possible operands
  case cast => exact fun p stage good level allowed possible =>
    ensures_castFrom stage good level allowed possible operands
  case builders => exact fun p stage good =>
    ensures_fromBuilders stage good valued (argumentsAt operands)

/-- Every level finds values below it where it looks for them. -/
theorem exprsAt (methods : MethodsAt c n newMethod) (levels : Nat) :
    ExprsAt c n levels (exprAt newMethod levels) := by
  induction levels with
  | zero =>
    intro site t p stage good valued spent
    refine ensures_exprStep stage good valued methods fun level => ?_
    have := site.ctx.hasExprLevel_iff.1 level
    omega
  | succ levels ih =>
    intro site t p stage good valued left
    refine ensures_exprStep stage good valued methods fun level => ?_
    rw [left]
    exact ih

def Exprs (c : Catalog) (n : Nat) (sub : ExprGen) : Prop :=
  ∀ site t p, Stage c n p → site.Good c p → t.Valued → Ensures (sub site t) p (Run (.expr site t) p)

theorem Exprs.at (exprs : Exprs c n sub) (levels : Nat) : ExprsAt c n levels sub :=
  fun site t p stage good valued _ => exprs site t p stage good valued

theorem exprs (methods : MethodsAt c n newMethod) : Exprs c n (expr newMethod) :=
  fun site t p stage good valued => exprsAt methods _ site t p stage good valued rfl

end Generator
end JavaSmith
