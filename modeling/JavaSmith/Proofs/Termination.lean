import JavaSmith.Proofs.Activations
import JavaSmith.Proofs.Generation

/-! Generation terminates. Handed generators that succeed wherever less is left to spend, every body
succeeds and asks nothing else of them. By induction on what is left, every activation that is in order
returns, and those it starts are in order too and have less left. -/
namespace JavaSmith

open Generator

namespace Activation

variable {c : Catalog} {p : Program} {a b : Activation} {s s' : Draft} {g : Performer}

def site : Activation → Site
  | block site _ | statement site | controlFlow site | method site _ _ | userCall site _ | expr site _
  | operator site _ | cast site _ | builders site _ | argument site _ _ => site

def Checked (p : Program) : Activation → Prop
  | block _ _ | statement _ => True
  | controlFlow site =>
    p.MayNotPrint ∧ p.Allows .controlFlowProbability ∧ site.ctx.hasBlockLevel = true
  | method site caller wanted =>
    site.ctx.method = some caller ∧ (∀ t, wanted = some t → t.Valued) ∧
      p.declared.userMethodCount < p.knobs.get .maxMethods
  | userCall _ wanted => p.Allows .methodCallProbability ∧ ∀ t, wanted = some t → t.Valued
  | expr _ t | builders _ t | argument _ t _ => t.Valued
  | operator site t =>
    site.ctx.hasExprLevel = true ∧ p.Allows .binaryOpProbability ∧ isOperatorResult t = true
  | cast site t =>
    site.ctx.hasExprLevel = true ∧ p.Allows .castProbability ∧ isNumericPrimitive t = true

/-- The activation is in order in the class. -/
structure Ready (c : Catalog) (p : Program) (a : Activation) : Prop where
  sound : p.Sound c
  good : a.site.Good c p
  checked : a.Checked p

def Outcome (p : Program) : (a : Activation) → a.Result → Program → Prop
  | block site length => Run (.block site length) p
  | statement site => Run (.statement site) p
  | controlFlow site => Filled site p
  | method site caller wanted => Run (.method site caller wanted) p
  | userCall site wanted => CallTried site wanted p
  | expr site t | operator site t | cast site t | builders site t => Run (.expr site t) p
  | argument site t forbidNull => ArgumentTried site t forbidNull p

/-- The activation is in order, with less than `m` left to spend. -/
structure Below (c : Catalog) (m : Measure) (a : Activation) (p : Program) : Prop where
  ready : a.Ready c p
  less : a.measure p < m

/-- What is handed to a body succeeds on what is in order with less than `m` left. -/
def Handed (c : Catalog) (m : Measure) (g : Performer) : Prop :=
  ∀ b p, b.Below c m p → Ensures (g b) p (b.Outcome p)

namespace Handed

variable {m : Measure} {n : Nat} {site : Site}

theorem exprs (handed : Handed c m g) (less : ∀ k ≤ n, ∀ levels, .of k 0 levels 3 < m) :
    Exprs c n g.exprs :=
  fun site t p stage good valued =>
    handed (expr site t) p ⟨⟨stage.sound, good, valued⟩, less _ stage.left _⟩

theorem operands (handed : Handed c m g)
    (less : ∀ k ≤ n, ∀ levels < site.ctx.exprLevels, .of k 0 levels 3 < m) :
    OperandsAt c n site g.exprs := by
  intro level inner t p stage good valued next
  have levels := site.ctx.hasExprLevel_iff.1 level
  refine handed (expr inner t) p ⟨⟨stage.sound, good, valued⟩, less _ stage.left _ ?_⟩
  omega

theorem arguments (handed : Handed c m g) (less : ∀ k ≤ n, .of k 0 site.ctx.exprLevels 1 < m) :
    ArgumentsAt c n site (g.arguments site) :=
  fun t forbidNull p stage good valued =>
    handed (argument site t forbidNull) p ⟨⟨stage.sound, good, valued⟩, less _ stage.left⟩

theorem methods (handed : Handed c m g) (less : ∀ k ≤ n, .of k 0 0 0 < m) :
    MethodsAt c n g.methods :=
  fun site caller wanted p stage good known valued few =>
    handed (method site caller wanted) p
      ⟨⟨stage.sound, good, known, valued, few⟩, less _ stage.left⟩

theorem parts (handed : Handed c m g) (less : ∀ k ≤ n, ∀ levels rest, .of k 0 levels rest < m) :
    g.parts.At c n where
  exprs := handed.exprs fun k le levels => less k le levels 3
  methods := handed.methods fun k le => less k le 0 0

theorem blocks (handed : Handed c m g)
    (less : ∀ k ≤ n, ∀ levels length, .of k levels 0 length < m) : Blocks c n g.blocks :=
  fun site length p stage good =>
    handed (block site length) p ⟨⟨stage.sound, good, trivial⟩, less _ stage.left _ _⟩

theorem nestedBlocks {levels : Nat} (handed : Handed c m g)
    (less : ∀ k ≤ n, ∀ length, .of k (levels + 1) 0 length < m) :
    BlocksAt c n levels g.blocks := by
  rintro site length p stage good rfl
  exact handed (block site length) p ⟨⟨stage.sound, good, trivial⟩, less _ stage.left _⟩

theorem choiceAt {t : Ty} (handed : Handed c m g) (valued : t.Valued)
    (less : ∀ k ≤ n, .of k 0 site.ctx.exprLevels 2 < m) :
    ChoiceAt c n site t (g (userCall site (some t))) (g (operator site t)) (g (cast site t))
      (g (builders site t)) where
  call p stage good allowed :=
    handed (userCall site (some t)) p
      ⟨⟨stage.sound, good, allowed, valued.wanted⟩, less _ stage.left⟩
  operator p stage good level allowed possible :=
    handed (operator site t) p
      ⟨⟨stage.sound, good, level, allowed, possible⟩, less _ stage.left⟩
  cast p stage good level allowed possible :=
    handed (cast site t) p ⟨⟨stage.sound, good, level, allowed, possible⟩, less _ stage.left⟩
  builders p stage good := handed (builders site t) p ⟨⟨stage.sound, good, valued⟩, less _ stage.left⟩

theorem placeAt (handed : Handed c m g) (call : ∀ k ≤ n, .of k 0 site.ctx.exprLevels 2 < m)
    (flow : ∀ k ≤ n, .of k (site.ctx.blockLevels + 1) 0 0 < m) :
    PlaceAt c n site (g (userCall site none)) (g (controlFlow site)) where
  call p stage good allowed :=
    handed (userCall site none) p ⟨⟨stage.sound, good, allowed, by simp⟩, call _ stage.left⟩
  flow p stage good may allowed level :=
    handed (controlFlow site) p ⟨⟨stage.sound, good, may, allowed, level⟩, flow _ stage.left⟩

end Handed

/-- With what succeeds wherever less is left, a body succeeds. -/
theorem ensures_body (ready : a.Ready c p) (handed : Handed c (a.measure p) g) :
    Ensures (a.body g) p (a.Outcome p) := by
  obtain ⟨sound, good, checked⟩ := ready
  have stage : Stage c p.methodsLeft p := ⟨sound, Nat.le_refl _⟩
  cases a with
  | block site length =>
    cases length with
    | zero => exact Ensures.pure .blockNil
    | succ length =>
      have first := handed (statement site.atStatement) p
        ⟨⟨sound, good.atStatement, trivial⟩,
          Measure.of_lt (Nat.le_refl _) (.inr ⟨rfl, .inr ⟨rfl, by omega⟩⟩)⟩
      refine Ensures.bind first fun first p' run => ?_
      have run : Run (.statement site.atStatement) p first p' := run
      obtain ⟨stage', typed⟩ := run.stage stage good.atStatement
      have good' := (good.later run.extends).afterBlock (typed .void).declaresIn
      have rest := handed (block (site.afterBlock first) length) p'
        ⟨⟨stage'.sound, good', trivial⟩,
          Measure.of_lt stage'.left (.inr ⟨rfl, .inr ⟨rfl, by omega⟩⟩)⟩
      refine Ensures.bind rest fun rest p'' run' => ?_
      exact Ensures.pure (.blockCons run run')
  | statement site =>
    have parts := handed.parts fun k le levels rest => Measure.of_lt le (by omega)
    refine ensures_place stage good parts ?_
    exact handed.placeAt (fun k le => Measure.of_lt le (by omega)) fun k le =>
      Measure.of_lt le (by omega)
  | controlFlow site =>
    obtain ⟨may, allowed, level⟩ := checked
    have levels := site.ctx.hasBlockLevel_iff.1 level
    have parts := handed.parts fun k le levels rest => Measure.of_lt le (by omega)
    refine ensures_controlFlow stage good parts may allowed level ?_
    exact handed.nestedBlocks fun k le length => Measure.of_lt le (by omega)
  | method site caller wanted =>
    obtain ⟨known, valued, few⟩ := checked
    obtain ⟨n, left⟩ : ∃ n, p.methodsLeft = n + 1 := Nat.exists_eq_add_one.2 (Nat.sub_pos_of_lt few)
    -- Whatever is written within the method may add one method fewer.
    have less {k levels exprs rest : Nat} (le : k ≤ n) :
        Measure.of k levels exprs rest < (method site caller wanted).measure p :=
      Measure.of_lt_of_iff.2 (.inl (left ▸ Nat.lt_succ_of_le le))
    have blocks := handed.blocks fun k le levels length => less le
    have exprs := handed.exprs fun k le levels => less le
    exact ensures_methodStep blocks exprs site caller wanted p (left ▸ stage) good known valued few
  | userCall site wanted =>
    obtain ⟨allowed, valued⟩ := checked
    have methods := handed.methods fun k le => Measure.of_lt le (by omega)
    refine ensures_userCall stage good allowed valued methods ?_
    exact handed.arguments fun k le => Measure.of_lt le (by omega)
  | expr site t =>
    have operands : OperandsAt c p.methodsLeft site g.exprs :=
      handed.operands fun k le levels next => Measure.of_lt le (by omega)
    refine ensures_choice stage good checked ?_ operands
    exact handed.choiceAt checked fun k le => Measure.of_lt le (by omega)
  | operator site t =>
    obtain ⟨level, allowed, possible⟩ := checked
    refine ensures_binaryOp stage good level allowed possible ?_
    exact handed.operands fun k le levels next => Measure.of_lt le (by omega)
  | cast site t =>
    obtain ⟨level, allowed, possible⟩ := checked
    refine ensures_castFrom stage good level allowed possible ?_
    exact handed.operands fun k le levels next => Measure.of_lt le (by omega)
  | builders site t =>
    refine ensures_fromBuilders stage good checked ?_
    exact handed.arguments fun k le => Measure.of_lt le (by omega)
  | argument site t forbidNull =>
    refine argumentsAt ?_ t forbidNull p stage good checked
    exact handed.operands fun k le levels next => Measure.of_lt le (by omega)

/-! What the generators do is what their bodies do with them. -/

theorem exists_measure_eq (a : Activation) (p : Program) :
    ∃ blocks exprs rest, a.measure p = .of p.methodsLeft blocks exprs rest := by
  cases a <;> exact ⟨_, _, _, rfl⟩

theorem methodsLeft_add_opens_le {p' : Program} (less : b.measure p' < a.measure p) :
    p'.methodsLeft + a.opens ≤ p.methodsLeft := by
  obtain ⟨blocks, exprs, rest, same⟩ := b.exists_measure_eq p'
  rw [same] at less
  cases a with
  | method =>
    rcases Measure.of_lt_of_iff.1 less with fewer | ⟨_, more⟩
    · exact fewer
    · omega
  | block | statement | controlFlow | userCall | expr | operator | cast | builders | argument =>
    exact Measure.methods_le less

theorem Ready.opens_le (ready : a.Ready c p) : a.opens ≤ p.methodsLeft := by
  cases a with
  | method =>
    obtain ⟨_, _, few⟩ := ready.checked
    exact Nat.sub_pos_of_lt few
  | block | statement | controlFlow | userCall | expr | operator | cast | builders | argument =>
    exact Nat.zero_le _

open Classical in
/-- The generators, of which nothing is asked but what is in order with less than `m` left. -/
noncomputable def runBelow (c : Catalog) (m : Measure) : Performer := fun a s =>
  if a.Below c m s.program then run a s else .error (.breach .budgetSpent) s

theorem refines_runBelow {m : Measure}
    (same : ∀ b s r s', b.Below c m s.program → run b s = .ok r s' → g b s = .ok r s')
    (b : Activation) : Refines (runBelow c m b) (g b) := by
  intro s r s' done
  unfold runBelow at done
  split at done
  · next below => exact same b s r s' below done
  · contradiction

theorem run_of_body {r : a.Result} (ready : a.Ready c s.program)
    (done : a.body (runBelow c (a.measure s.program)) s = .ok r s') : run a s = .ok r s' := by
  have enough : s.program.methodsLeft - a.opens + a.opens = s.program.methodsLeft :=
    Nat.sub_add_cancel ready.opens_le
  have handed : ∀ b, Refines (runBelow c (a.measure s.program) b)
      (perform (s.program.methodsLeft - a.opens) b) := by
    refine refines_runBelow fun b t r t' below done => ?_
    have fewer := methodsLeft_add_opens_le below.less
    exact refines_perform (by omega) b t r t' done
  have performed := ((refines_body handed a).trans (refines_body_perform _ a)) s r s' done
  rwa [enough] at performed

/-- The body of an activation that is in order succeeds, and asks for nothing but what is in order with
less left. -/
theorem ensures_body_runBelow (ready : a.Ready c p) :
    Ensures (a.body (runBelow c (a.measure p))) p (a.Outcome p) := by
  induction left : a.measure p using WellFoundedLT.induction generalizing a p with
  | ind m ih =>
    subst left
    refine ensures_body ready fun b p' below stream => ?_
    obtain ⟨r, s', done, outcome⟩ := ih _ below.less below.ready rfl stream
    refine ⟨r, s', ?_, outcome⟩
    rw [runBelow, if_pos below]
    exact run_of_body below.ready done

/-- In the state `s`, the activation `a` starts `b` in the state `s'`: what its body does depends on what
`b` does there. -/
def Activates (a : Activation) (s : Draft) (b : Activation) (s' : Draft) : Prop :=
  ∃ g : Performer, (∀ d t, ¬(d = b ∧ t = s') → g d t = run d t) ∧ a.body g s ≠ a.body run s

namespace Ready

/-- What is left below decides what the body does. -/
theorem body_eq_ok (ready : a.Ready c s.program) :
    ∃ r s', run a s = .ok r s' ∧ ∀ g : Performer,
      (∀ b t, b.Below c (a.measure s.program) t.program → g b t = run b t) →
      a.body g s = .ok r s' := by
  obtain ⟨r, s', done, _⟩ := ensures_body_runBelow ready s.stream
  refine ⟨r, s', run_of_body ready done, fun g agree => ?_⟩
  refine refines_body (refines_runBelow ?_) a s r s' done
  intro b t r t' below done
  rwa [agree b t below]

theorem returns (ready : a.Ready c s.program) :
    ∃ r s', run a s = .ok r s' ∧ a.body run s = .ok r s' := by
  obtain ⟨r, s', done, same⟩ := ready.body_eq_ok
  exact ⟨r, s', done, same run fun _ _ _ => rfl⟩

/-- What it starts is in order, with less left to spend. -/
theorem below (ready : a.Ready c s.program) (starts : Activates a s b s') :
    b.Below c (a.measure s.program) s'.program := by
  by_contra outside
  obtain ⟨g, agree, differ⟩ := starts
  obtain ⟨r, t, _, same⟩ := ready.body_eq_ok
  have unasked : a.body g s = .ok r t := by
    refine same g fun d t below => agree d t ?_
    rintro ⟨rfl, rfl⟩
    exact outside below
  rw [unasked, same run fun _ _ _ => rfl] at differ
  exact differ rfl

end Ready

/-- Activations that follow from the one in the class, each with a stream of its own. -/
inductive Reached (a : Activation) (p : Program) : Activation → Draft → Prop where
  | start (stream : Random.Stream) : Reached a p a ⟨p, stream⟩
  | nested {b d : Activation} {s s' : Draft} (stream : Random.Stream) :
      Reached a p b s → Activates b s d s' → Reached a p d ⟨s'.program, stream⟩

theorem Reached.ready (reached : Reached a p b s) (ready : a.Ready c p) : b.Ready c s.program := by
  induction reached with
  | start stream => exact ready
  | nested stream _ starts ih => exact (ih.below starts).ready

end Activation

open Activation

/-- Generation terminates. From the body of the entry on, whatever is drawn, every activation returns what
its body makes of the activations it starts, and each of these has less left to spend, in an order that
does not descend forever. -/
theorem generation_terminates (catalog : Catalog) (seed : UInt64) (config : Config) :
    WellFounded (fun m m' : Measure => m < m') ∧
      ∃ c, catalog.reset.prepare config.knobs = .ok c ∧
        (∀ stream, ∃ draft,
          entryBody c ⟨.new config.className seed config.knobs, stream⟩ = .ok () draft) ∧
        ∀ length a s,
          Reached (.block (entrySite c config.knobs) length) (.new config.className seed config.knobs)
            a s →
          (∃ r s', run a s = .ok r s' ∧ a.body run s = .ok r s') ∧
          ∀ b s', Activates a s b s' → b.measure s'.program < a.measure s.program := by
  obtain ⟨c, reset, prepared⟩ := catalog.prepare_reset config.knobs
  refine ⟨wellFounded_lt, c, reset, fun stream => ?_, fun length a s reached => ?_⟩
  · obtain ⟨_, draft, done, _⟩ := ensures_entryBody prepared seed stream
    exact ⟨draft, done⟩
  · have entry : (block (entrySite c config.knobs) length).Ready c
        (.new config.className seed config.knobs) :=
      ⟨Program.sound_new .., good_entrySite prepared _ seed, trivial⟩
    have ready := reached.ready entry
    exact ⟨ready.returns, fun b s' starts => (ready.below starts).less⟩

end JavaSmith
