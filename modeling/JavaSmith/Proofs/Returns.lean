import JavaSmith.Proofs.Generation
import JavaSmith.Proofs.RunCalls

/-! Where methods return. Blocks are written without returns, at any depth; the one return that a method
may have is put behind its statements when they are all there, and is of the kind its result type asks
for. -/
namespace JavaSmith

open Generator Program

namespace Block

abbrev Returnless (b : Block) : Prop := b.Every fun s => s.isReturn = false

theorem returnless_ifElse {condition : ExprId} {body otherwise : Block} (first : body.Returnless)
    (second : otherwise.Returnless) : Block.Returnless [.ifElse condition body otherwise] :=
  .singleton (Statement.visit_ifElse condition body otherwise) rfl (first.append second)

/-- The end of a body with the result type: a return of a value, or for `void` at most an empty one. -/
def Ends (returns : Ty) (last : Block) : Prop :=
  if returns.isVoid then last = [] ∨ last = [.returnVoid] else ∃ e, last = [.returnValue e]

end Block

namespace Program

structure EndsInReturn (p : Program) (m : MethodDeclaration) : Prop where
  known : m.method < p.declared.methods.size
  split : ∃ body last, m.body = body ++ last ∧ Block.Returnless body ∧
    Block.Ends (p.declared.method m.method).returns last

def ReturnsLast (p : Program) : Prop := ∀ m ∈ p.methods.toList, p.EndsInReturn m

variable {p p' : Program}

theorem EndsInReturn.later {m : MethodDeclaration} (ends : p.EndsInReturn m) (h : p.Extends p') :
    p'.EndsInReturn m where
  known := Nat.lt_of_lt_of_le ends.known h.methods_size
  split := by
    rw [h.returns ends.known]
    exact ends.split

theorem ReturnsLast.later (returns : p.ReturnsLast) (h : p.Extends p')
    (same : p'.methods = p.methods) : p'.ReturnsLast := by
  intro m member
  rw [same] at member
  exact (returns m member).later h

theorem ReturnsLast.closeMethod (returns : p.ReturnsLast) {m : MethodId} {params : List LocalId}
    {body : Block} (ends : p.EndsInReturn ⟨m, params, body⟩) :
    (p.closeMethod m params body).ReturnsLast := by
  have h := p.extends_closeMethod m params body
  intro k member
  rcases mem_toList_push member with old | rfl
  · exact (returns k old).later h
  · exact ends.later h

end Program

/-- What a run gives that becomes part of a body. -/
def Task.Returns : (task : Task) → task.Outcome → Prop
  | .statement _, b | .block _ _, b => Block.Returnless b
  | .ending _ returns, b => Block.Ends returns b
  | _, _ => True

/-- A run keeps returns where methods end. -/
theorem Run.returnsLast {task : Task} {p p' : Program} {r : task.Outcome} (run : Run task p r p') :
    p.ReturnsLast → p'.ReturnsLast ∧ task.Returns r := by
  induction run with
  | reuse | argumentReuse | argumentDirect | boundReuse | boundLiteral =>
    exact fun returns => ⟨returns.later (extends_add ..) rfl, trivial⟩
  | exprCall _ _ _ _ ih | calleeNew _ _ _ ih | argumentExpr _ _ ih => exact ih
  | assign _ _ _ _ _ _ _ ih =>
    exact fun returns => ⟨(ih returns).1.later (extends_addAssignment ..) rfl, trivial⟩
  | binary _ _ _ _ _ ihLeft ihRight =>
    intro returns
    have operands := (ihRight (ihLeft returns).1).1
    exact ⟨operands.later (extends_applied ..) (sameMethods_applied ..).methods, trivial⟩
  | cast _ _ _ _ _ ih | build _ _ _ _ ih =>
    exact fun returns => ⟨(ih returns).1.later (extends_add ..) rfl, trivial⟩
  | exprAfter _ _ ih ih' | argumentsCons _ _ ih ih' | detourCall _ _ _ _ _ _ ih ih'
  | detourTrans _ _ ih ih' => exact fun returns => ⟨(ih' (ih returns).1).1, trivial⟩
  | argumentsNil | noDetour => exact fun returns => ⟨returns, trivial⟩
  | calleeFound _ _ _ recorded =>
    exact fun returns => ⟨returns.later (extends_addCallEdge recorded) rfl, trivial⟩
  | call _ _ _ _ _ ihCallee ihArgs =>
    intro returns
    exact ⟨(ihArgs (ihCallee returns).1).1.later (extends_add ..) rfl, trivial⟩
  | @method _ _ _ p p' p'' o _ b last _ body ending ihBody ihEnding =>
    intro returns
    have opened : o.program.ReturnsLast := returns.later o.extends
      (sameMethods_addParameters (p.withDeclared o.declared) o.params).methods
    obtain ⟨inside, body'⟩ := ihBody opened
    obtain ⟨behind, last'⟩ := ihEnding inside
    obtain ⟨known, _, _, result⟩ := o.method_program
    have ends : o.program.EndsInReturn ⟨o.method, o.locals, b ++ last⟩ :=
      ⟨known, b, last, rfl, body', result.symm ▸ last'⟩
    exact ⟨behind.closeMethod (ends.later (body.extends.trans ending.extends)), trivial⟩
  | endingVoid last => exact fun returns => ⟨returns, last⟩
  | endingValue notVoid _ ih =>
    intro returns
    refine ⟨(ih returns).1, ?_⟩
    simp [Task.Returns, Block.Ends, notVoid]
  | print _ _ _ _ ih | callStatement _ _ _ _ ih =>
    exact fun returns => ⟨(ih returns).1, .leaf rfl rfl⟩
  | assignStatement _ _ _ _ _ ih =>
    exact fun returns => ⟨(ih returns).1.later (extends_addAssignment ..) rfl, .leaf rfl rfl⟩
  | declare _ _ _ _ _ ih =>
    exact fun returns => ⟨(ih returns).1.later (extends_addInitializedLocal ..) rfl, .leaf rfl rfl⟩
  | declareField _ _ _ _ _ ih =>
    exact fun returns => ⟨(ih returns).1.later (extends_addInitializedField ..) rfl, .nil⟩
  | ifThen _ _ _ _ _ _ _ ihCondition ihBody =>
    intro returns
    obtain ⟨inside, body⟩ := ihBody (ihCondition returns).1
    exact ⟨inside, .singleton rfl rfl body⟩
  | ifElse _ _ _ _ _ _ _ _ _ _ ihCondition ihBody ihOtherwise =>
    intro returns
    obtain ⟨inside, body⟩ := ihBody (ihCondition returns).1
    obtain ⟨inside, otherwise⟩ := ihOtherwise inside
    exact ⟨inside, Block.returnless_ifElse body otherwise⟩
  | loop _ _ _ _ _ _ counter _ _ ihBound ihBody =>
    intro returns
    subst counter
    have counted := (ihBound returns).1.later (extends_addCounter _) rfl
    obtain ⟨inside, body⟩ := ihBody counted
    exact ⟨inside, .singleton rfl rfl body⟩
  | noStatement | blockNil => exact fun returns => ⟨returns, .nil⟩
  | statementAfter _ _ _ ihDetour ih => exact fun returns => ih (ihDetour returns).1
  | blockCons _ _ ihFirst ihRest =>
    intro returns
    obtain ⟨first, statement⟩ := ihFirst returns
    obtain ⟨rest, others⟩ := ihRest first
    exact ⟨rest, statement.append others⟩
  | detourMethod _ _ _ _ ih | detourBuilder _ _ _ _ ih =>
    exact fun returns => ⟨(ih returns).1, trivial⟩

namespace Generated

variable {c : Catalog} {p : Program} {seed : UInt64} {config : Config}

theorem returnsLast (generated : Generated c seed config p) :
    p.ReturnsLast ∧ p.entry.body.Returnless := by
  obtain ⟨length, body, q, _, run, rfl⟩ := generated.run
  have new : (Program.new config.className seed config.knobs).ReturnsLast := fun m none => by
    contradiction
  obtain ⟨returns, entry⟩ := run.returnsLast new
  exact ⟨returns.later (q.extends_closeEntry body) rfl, entry⟩

theorem made_of_returnValue (generated : Generated c seed config p) {m : MethodDeclaration}
    (member : m ∈ p.methods.toList) {body : Block} {e : ExprId}
    (split : m.body = body ++ [.returnValue e]) :
    (p.declared.method m.method).returns.accepts (p.typeOf e) = true ∧ p.isHole e = false := by
  have visited : Statement.returnValue e ∈ visitBlock m.body := by
    simp [split, visitBlock_append, visitBlock, Statement.visit]
  have made : p.Made _ e := (generated.sound.methods m member).body _ visited
  exact ⟨made.accepted, generated.sound.isHole made.inside⟩

end Generated

/-- The entry returns nowhere. Any other method returns at the end of its body and nowhere else: always
a value that its result type accepts, or at most nothing where that is `void`. -/
theorem generated_returns (catalog : Catalog) (seed : UInt64) (config : Config) :
    ∃ p c, generateWith catalog seed config = .ok (p, c) ∧
      (∀ s ∈ visitBlock p.entry.body, s.isReturn = false) ∧
      ∀ m ∈ p.methods.toList, ∃ body last, m.body = body ++ last ∧
        (∀ s ∈ visitBlock body, s.isReturn = false) ∧
        if (p.declared.method m.method).returns.isVoid then last = [] ∨ last = [.returnVoid]
        else ∃ e, last = [.returnValue e] ∧
          (p.declared.method m.method).returns.accepts (p.typeOf e) = true ∧
          p.isHole e = false := by
  obtain ⟨p, c, done, generated⟩ := generateWith_ok catalog seed config
  obtain ⟨returns, entry⟩ := generated.returnsLast
  refine ⟨p, c, done, entry, fun m member => ?_⟩
  obtain ⟨body, last, split, returnless, ending⟩ := (returns m member).split
  refine ⟨body, last, split, returnless, ?_⟩
  unfold Block.Ends at ending
  split at ending
  · next void => rwa [if_pos void]
  · next notVoid =>
    obtain ⟨e, rfl⟩ := ending
    rw [if_neg notVoid]
    exact ⟨e, rfl, generated.made_of_returnValue member split⟩

end JavaSmith
