import JavaSmith.Proofs.Places
import JavaSmith.Proofs.Stock

/-! How large a class gets. Every place of a block takes one statement at most, every statement of
control flow has one level fewer left for the blocks within it, and a method is added only where one
more is allowed. -/
namespace JavaSmith

open Generator Program

theorem Context.blockLevels_of_hasBlockLevel {c : Context} (level : c.hasBlockLevel = true)
    (iterations : Nat) : c.enterBranch.blockLevels + 1 = c.blockLevels ∧
      (c.enterLoop iterations).blockLevels + 1 = c.blockLevels := by
  simp only [hasBlockLevel, decide_eq_true_eq] at level
  simp only [blockLevels, enterBranch, enterLoop]
  omega

def Knobs.nestedLimit (knobs : Knobs) : Nat := max 1 ((knobs.get .maxMethodLength + 1) / 2)

namespace Block

/-- No statement of the block stands within more than `levels` statements of control flow, and the
blocks of all of them are short. -/
def Shaped (knobs : Knobs) (levels : Nat) (b : Block) : Prop :=
  ∀ loops depth s, b.Holds loops depth s →
    depth ≤ levels ∧ ∀ inner ∈ s.blocks, inner.length ≤ knobs.nestedLimit

variable {knobs : Knobs} {levels : Nat} {a b : Block} {s : Statement}

theorem Holds.append {loops depth : Nat} (holds : Holds (a ++ b) loops depth s) :
    Holds a loops depth s ∨ Holds b loops depth s := by
  cases holds with
  | here member => exact (List.mem_append.1 member).imp .here .here
  | within member inner holds =>
    exact (List.mem_append.1 member).imp (.within · inner holds) (.within · inner holds)

namespace Shaped

theorem nil : Shaped knobs levels [] := by
  intro loops depth s holds
  cases holds with
  | here none => contradiction
  | within none => contradiction

theorem append (first : a.Shaped knobs levels) (rest : b.Shaped knobs levels) :
    Block.Shaped knobs levels (a ++ b) := by
  intro loops depth s holds
  exact holds.append.elim (first loops depth s) (rest loops depth s)

theorem singleton
    (inside : ∀ inner ∈ s.blocks, inner.length ≤ knobs.nestedLimit ∧ inner.Shaped knobs levels) :
    Block.Shaped knobs (levels + 1) [s] := by
  intro loops depth s' holds
  cases holds with
  | here member =>
    rw [List.mem_singleton.1 member]
    exact ⟨Nat.zero_le _, fun inner own => (inside inner own).1⟩
  | within member own holds =>
    rw [List.mem_singleton.1 member] at own
    obtain ⟨deep, short⟩ := (inside _ own).2 _ _ _ holds
    exact ⟨Nat.succ_le_succ deep, short⟩

theorem leaf (none : s.blocks = []) : Block.Shaped knobs levels [s] := by
  intro loops depth s' holds
  cases holds with
  | here member =>
    rw [List.mem_singleton.1 member, none]
    exact ⟨Nat.zero_le _, fun inner own => by contradiction⟩
  | within member own =>
    rw [List.mem_singleton.1 member, none] at own
    contradiction

end Shaped
end Block

/-- The body of a method that is called: statements, and behind them at most one return. -/
structure MethodDeclaration.Bounded (knobs : Knobs) (m : MethodDeclaration) : Prop where
  split : ∃ body last, m.body = body ++ last ∧ body.length ≤ knobs.get .maxMethodLength ∧
    (last = [] ∨ ∃ s, last = [s] ∧ s.isReturn = true)
  shaped : m.body.Shaped knobs (knobs.get .maxControlFlowDepth)

structure Program.Bounded (knobs : Knobs) (p : Program) : Prop where
  settings : p.knobs = knobs
  count : p.declared.userMethodCount ≤ knobs.get .maxMethods
  methods : ∀ m ∈ p.methods.toList, m.Bounded knobs

namespace Program

variable {knobs : Knobs} {p p' : Program}

theorem Bounded.nestedLimit (bounded : p.Bounded knobs) : p.nestedLimit = knobs.nestedLimit :=
  congrArg Knobs.nestedLimit bounded.settings

theorem Bounded.same (bounded : p.Bounded knobs) (same : p.SameMethods p') : p'.Bounded knobs where
  settings := same.later.knobs.trans bounded.settings
  count := same.userMethodCount ▸ bounded.count
  methods := same.methods ▸ bounded.methods

theorem Bounded.add (bounded : p.Bounded knobs) (node : Node) (t : Ty) :
    (p.add node t).2.Bounded knobs :=
  bounded.same (p.sameMethods_add node t)

theorem Bounded.addAssignment (bounded : p.Bounded knobs) (v : Var) (source : ExprId) :
    (p.addAssignment v source).2.Bounded knobs :=
  (bounded.same (p.sameMethods_setInitialized v)).add _ _

theorem Bounded.recordCost (bounded : p.Bounded knobs) (m : MethodId) (body : Block) :
    (p.recordCost m body).Bounded knobs :=
  bounded.same (p.sameMethods_recordCost m body)

theorem Bounded.addBody (bounded : p.Bounded knobs) {m : MethodDeclaration}
    (shape : m.Bounded knobs) : (p.addBody m).Bounded knobs where
  settings := bounded.settings
  count := bounded.count
  methods k member := by
    rcases mem_toList_push member with old | rfl
    · exact bounded.methods k old
    · exact shape

end Program

namespace Opening

variable {site : Site} {caller : MethodId} {wanted : Option Ty} {p : Program} {knobs : Knobs}

theorem userMethodCount_program (o : Opening site caller wanted p) :
    o.program.declared.userMethodCount = p.declared.userMethodCount + 1 := by
  obtain ⟨_, _, g, _, declared⟩ := Declarations.addCallEdge_eq_ok_iff.1 o.recorded
  have same := sameMethods_addParameters (p.withDeclared o.declared) o.params
  rw [Opening.program, same.userMethodCount, withDeclared, declared]
  simp [Declarations.userMethodCount, Declarations.addMethod, Declarations.appendMethod]

theorem bounded (o : Opening site caller wanted p) (bounded : p.Bounded knobs)
    (room : p.declared.userMethodCount < knobs.get .maxMethods) : o.program.Bounded knobs where
  settings := o.extends.knobs.trans bounded.settings
  count := o.userMethodCount_program ▸ room
  methods := by
    rw [Opening.program, (sameMethods_addParameters _ _).methods]
    exact bounded.methods

end Opening

def Task.Room (knobs : Knobs) (p : Program) : Task → Prop
  | .method _ _ _ => p.declared.userMethodCount < knobs.get .maxMethods
  | _ => True

def Task.Shapes (knobs : Knobs) : (task : Task) → task.Outcome → Prop
  | .statement site, b => b.length ≤ 1 ∧ b.Shaped knobs site.ctx.blockLevels
  | .block site length, b => b.length ≤ length ∧ b.Shaped knobs site.ctx.blockLevels
  | .ending _ _, b => b = [] ∨ ∃ s, b = [s] ∧ s.blocks = [] ∧ s.isReturn = true
  | _, _ => True

theorem Site.maxControlFlowDepth_withoutNull (site : Site) (forbidNull : Bool) :
    (site.withoutNull forbidNull).ctx.maxControlFlowDepth = site.ctx.maxControlFlowDepth := by
  unfold Site.withoutNull
  split
  · rfl
  · rfl

namespace Block.Shaped

variable {knobs : Knobs} {site : Site} {condition : ExprId} {body otherwise : Block}

theorem ifThen (level : site.ctx.hasBlockLevel = true) (short : body.length ≤ knobs.nestedLimit)
    (shaped : body.Shaped knobs site.inBranch.ctx.blockLevels) :
    Block.Shaped knobs site.ctx.blockLevels [.ifThen condition body] := by
  rw [← (site.ctx.blockLevels_of_hasBlockLevel level 0).1]
  refine .singleton fun inner own => ?_
  exact List.mem_singleton.1 own ▸ ⟨short, shaped⟩

theorem ifElse (level : site.ctx.hasBlockLevel = true) (short : body.length ≤ knobs.nestedLimit)
    (shaped : body.Shaped knobs site.inBranch.ctx.blockLevels)
    (short' : otherwise.length ≤ knobs.nestedLimit)
    (shaped' : otherwise.Shaped knobs site.inBranch.ctx.blockLevels) :
    Block.Shaped knobs site.ctx.blockLevels [.ifElse condition body otherwise] := by
  rw [← (site.ctx.blockLevels_of_hasBlockLevel level 0).1]
  refine .singleton fun inner own => ?_
  rcases List.mem_cons.1 own with rfl | own
  · exact ⟨short, shaped⟩
  · exact List.mem_singleton.1 own ▸ ⟨short', shaped'⟩

theorem loop {kind : LoopKind} {counter : LocalId} {bound : ExprId} {iterations : Nat}
    (level : site.ctx.hasBlockLevel = true) (short : body.length ≤ knobs.nestedLimit)
    (shaped : body.Shaped knobs (site.inLoop iterations counter).ctx.blockLevels) :
    Block.Shaped knobs site.ctx.blockLevels [.loop kind counter bound body] := by
  rw [← (site.ctx.blockLevels_of_hasBlockLevel level iterations).2]
  refine .singleton fun inner own => ?_
  exact List.mem_singleton.1 own ▸ ⟨short, shaped⟩

end Block.Shaped

theorem MethodDeclaration.Bounded.of_parts {knobs : Knobs} {m : MethodId} {params : List LocalId}
    {body last : Block} (short : body.length ≤ knobs.get .maxMethodLength)
    (shaped : body.Shaped knobs (knobs.get .maxControlFlowDepth))
    (ending : last = [] ∨ ∃ s, last = [s] ∧ s.blocks = [] ∧ s.isReturn = true) :
    MethodDeclaration.Bounded knobs ⟨m, params, body ++ last⟩ := by
  refine ⟨⟨body, last, rfl, short, ?_⟩, shaped.append ?_⟩
  · exact ending.imp_right fun ⟨s, same, _, isReturn⟩ => ⟨s, same, isReturn⟩
  · rcases ending with rfl | ⟨s, rfl, none, _⟩
    · exact .nil
    · exact .leaf none

/-- A run keeps the class within the limits, and so does what it gives. -/
theorem Run.bounded {task : Task} {p p' : Program} {r : task.Outcome} (run : Run task p r p')
    {knobs : Knobs} :
    task.site.ctx.maxControlFlowDepth = knobs.get .maxControlFlowDepth → task.Room knobs p →
      p.Bounded knobs → p'.Bounded knobs ∧ task.Shapes knobs r := by
  induction run with
  | reuse | argumentReuse | argumentDirect | boundReuse | boundLiteral =>
    exact fun _ _ bounded => ⟨bounded.add _ _, trivial⟩
  | exprCall _ _ _ _ ih => exact ih
  | assign _ _ _ _ _ _ _ ih =>
    exact fun limit _ bounded => ⟨(ih limit trivial bounded).1.addAssignment _ _, trivial⟩
  | binary _ _ _ _ _ ihLeft ihRight =>
    intro limit _ bounded
    have left := (ihLeft limit trivial bounded).1
    exact ⟨(ihRight limit trivial left).1.same (sameMethods_applied ..), trivial⟩
  | cast _ _ _ _ _ ih | build _ _ _ _ ih =>
    exact fun limit _ bounded => ⟨(ih limit trivial bounded).1.add _ _, trivial⟩
  | exprAfter _ _ ih ih' | argumentsCons _ _ ih ih' | detourCall _ _ _ _ _ _ ih ih'
  | detourTrans _ _ ih ih' =>
    intro limit _ bounded
    exact ⟨(ih' limit trivial (ih limit trivial bounded).1).1, trivial⟩
  | argumentExpr _ _ ih =>
    intro limit _ bounded
    exact ih ((Site.maxControlFlowDepth_withoutNull ..).trans limit) trivial bounded
  | argumentsNil | noDetour => exact fun _ _ bounded => ⟨bounded, trivial⟩
  | calleeFound _ _ _ recorded =>
    intro _ _ bounded
    obtain ⟨_, _, g, _, rfl⟩ := Declarations.addCallEdge_eq_ok_iff.1 recorded
    exact ⟨⟨bounded.settings, bounded.count, bounded.methods⟩, trivial⟩
  | calleeNew room _ _ ih =>
    intro limit _ bounded
    exact ih limit (bounded.settings ▸ room) bounded
  | call _ _ _ _ _ ihCallee ihArgs =>
    intro limit _ bounded
    have callee := (ihCallee limit trivial bounded).1
    exact ⟨(ihArgs limit trivial callee).1.add _ _, trivial⟩
  | @method _ _ _ _ _ _ o _ _ _ few _ _ ihBody ihEnding =>
    intro limit room bounded
    obtain ⟨inside, short, shaped⟩ := ihBody limit trivial (o.bounded bounded room)
    obtain ⟨behind, ending⟩ := ihEnding limit trivial inside
    have levels : o.inner.ctx.blockLevels = knobs.get .maxControlFlowDepth := limit
    have few := bounded.settings ▸ Nat.le_trans short few
    refine ⟨(behind.recordCost _ _).addBody ?_, trivial⟩
    exact .of_parts few (levels ▸ shaped) ending
  | endingVoid last =>
    intro _ _ bounded
    refine ⟨bounded, last.imp_right fun same => ⟨_, same, rfl, rfl⟩⟩
  | endingValue _ _ ih =>
    exact fun limit _ bounded => ⟨(ih limit trivial bounded).1, .inr ⟨_, rfl, rfl, rfl⟩⟩
  | print _ _ _ _ ih | callStatement _ _ _ _ ih =>
    intro limit _ bounded
    exact ⟨(ih limit trivial bounded).1, Nat.le_refl 1, .leaf rfl⟩
  | assignStatement _ _ _ _ _ ih =>
    intro limit _ bounded
    exact ⟨(ih limit trivial bounded).1.addAssignment _ _, Nat.le_refl 1, .leaf rfl⟩
  | declare _ _ _ _ _ ih =>
    intro limit _ bounded
    exact ⟨(ih limit trivial bounded).1.same (sameMethods_addInitializedLocal ..), Nat.le_refl 1,
      .leaf rfl⟩
  | declareField _ _ _ _ _ ih =>
    intro limit _ bounded
    exact ⟨(ih limit trivial bounded).1.same ⟨extends_addInitializedField .., rfl, rfl, rfl⟩,
      Nat.zero_le 1, .nil⟩
  | ifThen _ _ level _ _ short _ ihCondition ihBody =>
    intro limit _ bounded
    obtain ⟨inside, few, shaped⟩ := ihBody limit trivial (ihCondition limit trivial bounded).1
    have short := Nat.le_trans few (bounded.nestedLimit ▸ short)
    exact ⟨inside, Nat.le_refl 1, .ifThen level short shaped⟩
  | ifElse _ _ level _ _ short _ _ short' _ ihCondition ihBody ihOtherwise =>
    intro limit _ bounded
    obtain ⟨inside, few, shaped⟩ := ihBody limit trivial (ihCondition limit trivial bounded).1
    obtain ⟨inside, few', shaped'⟩ := ihOtherwise limit trivial inside
    have short := Nat.le_trans few (bounded.nestedLimit ▸ short)
    have short' := Nat.le_trans few' (bounded.nestedLimit ▸ short')
    exact ⟨inside, Nat.le_refl 1, .ifElse level short shaped short' shaped'⟩
  | @loop _ _ p' _ _ _ _ _ _ _ _ _ level _ _ _ counter short _ ihBound ihBody =>
    intro limit _ bounded
    subst counter
    have bound := (ihBound limit trivial bounded).1
    have counted : p'.addCounter.2.Bounded knobs :=
      bound.same ⟨p'.extends_addCounter, rfl, rfl, rfl⟩
    obtain ⟨inside, few, shaped⟩ := ihBody limit trivial counted
    have short := Nat.le_trans few (bounded.nestedLimit ▸ short)
    exact ⟨inside, Nat.le_refl 1, .loop level short shaped⟩
  | noStatement => exact fun _ _ bounded => ⟨bounded, Nat.zero_le 1, .nil⟩
  | statementAfter _ _ _ ihDetour ih =>
    exact fun limit _ bounded => ih limit trivial (ihDetour limit trivial bounded).1
  | blockNil => exact fun _ _ bounded => ⟨bounded, Nat.le_refl 0, .nil⟩
  | blockCons _ _ ihFirst ihRest =>
    intro limit _ bounded
    obtain ⟨first, one, shaped⟩ := ihFirst limit trivial bounded
    obtain ⟨rest, few, shaped'⟩ := ihRest limit trivial first
    refine ⟨rest, ?_, shaped.append shaped'⟩
    rw [List.length_append]
    omega
  | detourMethod _ _ _ _ ih | detourBuilder _ _ _ _ ih =>
    exact fun limit _ bounded => ⟨(ih limit trivial bounded).1, trivial⟩

namespace Generated

variable {c : Catalog} {p : Program} {seed : UInt64} {config : Config}

theorem bounded (generated : Generated c seed config p) :
    p.Bounded config.knobs ∧ p.entry.body.length ≤ config.knobs.get .maxProgramLength ∧
      p.entry.body.Shaped config.knobs (config.knobs.get .maxControlFlowDepth) := by
  obtain ⟨length, body, q, few, run, rfl⟩ := generated.run
  have new : (Program.new config.className seed config.knobs).Bounded config.knobs :=
    ⟨rfl, Nat.zero_le _, fun m none => by contradiction⟩
  obtain ⟨bounded, short, shaped⟩ := run.bounded rfl trivial new
  have recorded := bounded.recordCost entryId body
  refine ⟨⟨recorded.settings, recorded.count, recorded.methods⟩, Nat.le_trans short few, ?_⟩
  exact shaped

theorem shaped (generated : Generated c seed config p) :
    ∀ m ∈ p.methodsInOrder, m.body.Shaped config.knobs (config.knobs.get .maxControlFlowDepth) := by
  obtain ⟨bounded, _, entry⟩ := generated.bounded
  intro m member
  rcases List.mem_append.1 member with complete | last
  · exact (bounded.methods m complete).shaped
  · exact List.mem_singleton.1 last ▸ entry

end Generated

/-- The settings bound what is generated: the methods, the statements of every body and of every block
within one, the levels of control flow, and the dimensions of the types that are declared. -/
theorem generated_bounded (catalog : Catalog) (seed : UInt64) (config : Config) :
    ∃ p c, generateWith catalog seed config = .ok (p, c) ∧
      p.declared.userMethodCount ≤ config.knobs.get .maxMethods ∧
      p.entry.body.length ≤ config.knobs.get .maxProgramLength ∧
      (∀ m ∈ p.methods.toList, ∃ body last, m.body = body ++ last ∧
        body.length ≤ config.knobs.get .maxMethodLength ∧
        (last = [] ∨ ∃ s, last = [s] ∧ s.isReturn = true)) ∧
      (∀ m ∈ p.methodsInOrder,
        (∀ s ∈ visitBlock m.body, ∀ inner ∈ s.blocks,
          inner.length ≤ max 1 ((config.knobs.get .maxMethodLength + 1) / 2)) ∧
        ∀ loops depth s, m.body.Holds loops depth s →
          depth ≤ config.knobs.get .maxControlFlowDepth) ∧
      ∀ t ∈ p.declared.types, t.dimensions ≤ config.knobs.get .maxArrayDimensions ∧
        ∀ component n, t = .array component n → component.dimensions = 0 := by
  obtain ⟨p, c, done, generated⟩ := generateWith_ok catalog seed config
  obtain ⟨bounded, short, _⟩ := generated.bounded
  refine ⟨p, c, done, bounded.count, short, fun m member => (bounded.methods m member).split,
    fun m member => ⟨fun s visited inner own => ?_, fun loops depth s holds => ?_⟩,
    fun t member => ⟨?_, ?_⟩⟩
  · obtain ⟨loops, depth, holds⟩ := exists_holds_of_mem_visitBlock m.body visited
    exact (generated.shaped m member loops depth s holds).2 inner own
  · exact (generated.shaped m member loops depth s holds).1
  · exact (generated.stocked.declared t member).dimensions_le
  · rintro component n rfl
    exact (generated.stocked.declared _ member).dimensions_component

end JavaSmith
