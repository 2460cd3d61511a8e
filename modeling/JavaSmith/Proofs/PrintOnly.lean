import JavaSmith.Proofs.Generation
import JavaSmith.Proofs.RunCalls

/-! Classes of prints alone. A place of a block is filled with something else, or left empty, only after
the roll for a print has failed. Where it cannot fail every place is a print, bodies are flat and no
field is declared; what is printed may still call methods, unless there cannot be any. -/
namespace JavaSmith

open Generator Program JavaSmith.Random

def Block.Prints (n : Nat) (b : Block) : Prop := ∃ es : List ExprId, es.length = n ∧ b = es.map .print

def Block.Closes (b : Block) : Prop := b = [] ∨ b = [.returnVoid] ∨ ∃ e, b = [.returnValue e]

theorem Block.Prints.append {n n' : Nat} {b b' : Block} (h : b.Prints n) (h' : b'.Prints n') :
    (b ++ b').Prints (n' + n) := by
  obtain ⟨es, rfl, rfl⟩ := h
  obtain ⟨es', rfl, rfl⟩ := h'
  exact ⟨es ++ es', by rw [List.length_append, Nat.add_comm], List.map_append.symm⟩

theorem Block.Prints.length {n : Nat} {b : Block} (h : b.Prints n) : b.length = n := by
  obtain ⟨es, rfl, rfl⟩ := h
  exact List.length_map ..

theorem fields_of_addCallEdge {d d' : Declarations} {caller callee : MethodId}
    (recorded : d.addCallEdge caller callee = .ok d') : d'.fields = d.fields := by
  obtain ⟨_, _, g, _, rfl⟩ := Declarations.addCallEdge_eq_ok_iff.1 recorded
  rfl

namespace Program

variable {p p' : Program}

def BodiesPrint (p : Program) : Prop :=
  ∀ m ∈ p.methods.toList, ∃ n body last, m.body = body ++ last ∧ Block.Prints n body ∧ last.Closes

structure Flat (p : Program) : Prop where
  certain : ¬p.MayNotPrint
  fields : p.fields = #[]
  records : p.declared.fields.size = 0
  bodies : p.BodiesPrint

namespace Flat

theorem later (flat : p.Flat) (h : p.Extends p') (fields : p'.fields = p.fields)
    (records : p'.declared.fields.size = p.declared.fields.size) (methods : p'.methods = p.methods) :
    p'.Flat where
  certain may := flat.certain (h.mayNotPrint.1 may)
  fields := fields.trans flat.fields
  records := records.trans flat.records
  bodies m member := flat.bodies m (methods ▸ member)

theorem add (flat : p.Flat) (node : Node) (t : Ty) : (p.add node t).2.Flat :=
  flat.later (p.extends_add node t) rfl rfl rfl

theorem addAssignment (flat : p.Flat) (v : Var) (source : ExprId) :
    (p.addAssignment v source).2.Flat := by
  refine flat.later (p.extends_addAssignment v source) rfl ?_ rfl
  cases v with
  | field id => exact Array.size_modify
  | localVar id => rfl

theorem addParameters (flat : p.Flat) (params : List Ty) : (p.addParameters params).2.Flat := by
  induction params generalizing p with
  | nil => exact flat
  | cons t rest ih => exact ih (flat.later (p.extends_addInitializedLocal .none t) rfl rfl rfl)

theorem opening (flat : p.Flat) {site : Site} {caller : MethodId} {wanted : Option Ty}
    (o : Opening site caller wanted p) : o.program.Flat := by
  have recorded := extends_addCallEdge (p := (p.addMethod _ o.params o.returns).2) o.recorded
  have records := congrArg Array.size (fields_of_addCallEdge o.recorded)
  exact (flat.later ((p.extends_addMethod ..).trans recorded) rfl records rfl).addParameters o.params

theorem closeMethod (flat : p.Flat) {n : Nat} {m : MethodId} {params : List LocalId}
    {body last : Block} (prints : body.Prints n) (closes : last.Closes) :
    (p.closeMethod m params (body ++ last)).Flat where
  certain := flat.certain
  fields := flat.fields
  records := flat.records
  bodies k member := by
    rcases mem_toList_push member with old | rfl
    · exact flat.bodies k old
    · exact ⟨n, body, last, rfl, prints, closes⟩

end Flat

end Program

def Task.Prints : (task : Task) → task.Outcome → Prop
  | .statement _, b => Block.Prints 1 b
  | .block _ length, b => Block.Prints length b
  | .ending _ _, b => Block.Closes b
  | _, _ => True

/-- Where prints are certain, a run fills every place with one. -/
theorem Run.flat {task : Task} {p p' : Program} {r : task.Outcome} (run : Run task p r p') :
    p.Flat → p'.Flat ∧ task.Prints r := by
  induction run with
  | reuse | argumentReuse | argumentDirect | boundReuse | boundLiteral =>
    exact fun flat => ⟨flat.add .., trivial⟩
  | exprCall _ _ _ _ ih | calleeNew _ _ _ ih | argumentExpr _ _ ih => exact ih
  | assign _ _ _ _ _ _ _ ih => exact fun flat => ⟨(ih flat).1.addAssignment .., trivial⟩
  | binary _ _ _ _ _ ihLeft ihRight =>
    intro flat
    obtain ⟨declared, methods, fields⟩ := declared_applied ..
    exact ⟨(ihRight (ihLeft flat).1).1.later (extends_applied ..) fields
      (congrArg (·.fields.size) declared) methods, trivial⟩
  | cast _ _ _ _ _ ih | build _ _ _ _ ih => exact fun flat => ⟨(ih flat).1.add .., trivial⟩
  | exprAfter _ _ ih ih' | argumentsCons _ _ ih ih' | detourCall _ _ _ _ _ _ ih ih'
  | detourTrans _ _ ih ih' => exact fun flat => ⟨(ih' (ih flat).1).1, trivial⟩
  | argumentsNil | noDetour => exact fun flat => ⟨flat, trivial⟩
  | calleeFound _ _ _ recorded =>
    intro flat
    have records := congrArg Array.size (fields_of_addCallEdge recorded)
    exact ⟨flat.later (extends_addCallEdge recorded) rfl records rfl, trivial⟩
  | call _ _ _ _ _ ihCallee ihArgs =>
    exact fun flat => ⟨(ihArgs (ihCallee flat).1).1.add .., trivial⟩
  | @method _ _ _ _ _ _ o _ _ _ _ _ _ ihBody ihEnding =>
    intro flat
    obtain ⟨inside, prints⟩ := ihBody (flat.opening o)
    obtain ⟨behind, closes⟩ := ihEnding inside
    exact ⟨behind.closeMethod prints closes, trivial⟩
  | endingVoid last => exact fun flat => ⟨flat, last.imp_right .inl⟩
  | endingValue _ _ ih => exact fun flat => ⟨(ih flat).1, .inr (.inr ⟨_, rfl⟩)⟩
  | @print _ _ _ _ e _ _ _ _ ih => exact fun flat => ⟨(ih flat).1, [e], rfl, rfl⟩
  -- everything but a print comes after a roll for a print that failed
  | assignStatement may | callStatement may | declare may | declareField may | ifThen may
  | ifElse may | loop may | noStatement may | statementAfter may =>
    exact fun flat => absurd may flat.certain
  | blockNil => exact fun flat => ⟨flat, [], rfl, rfl⟩
  | blockCons _ _ ihFirst ihRest =>
    intro flat
    obtain ⟨first, print⟩ := ihFirst flat
    obtain ⟨rest, prints⟩ := ihRest first
    exact ⟨rest, print.append prints⟩
  | detourMethod _ _ _ _ ih | detourBuilder _ _ _ _ ih =>
    exact fun flat => ⟨(ih flat).1, trivial⟩

namespace Program

variable {p p' : Program}

/-- The class may have no methods but its entry, and has none. -/
structure Methodless (p : Program) : Prop where
  none : p.knobs.get .methodProbability = 0 ∨ p.knobs.get .maxMethods = 0
  undeclared : p.declared.userMethodCount = 0
  incomplete : p.methods = #[]
  callless : ∀ e, (p.node e).callee? = .none

namespace Methodless

theorem callable_eq_nil (methodless : p.Methodless) (caller : MethodId) :
    p.declared.callable caller = [] := by
  have only (m : MethodId) (known : m < p.declared.methods.size) :
      (p.declared.method m).isEntry = true := by
    have all := Array.countP_eq_zero.1 methodless.undeclared p.declared.methods[m]
      (Array.getElem_mem known)
    rw [Declarations.method, Array.getElem?_eq_getElem known, Option.getD_some]
    simpa using all
  have users : p.declared.userMethods = [] :=
    List.filter_eq_nil_iff.2 fun m known => by simp [only m (List.mem_range.1 known)]
  rw [Declarations.callable, users]
  rfl

theorem not_allows (methodless : p.Methodless)
    (room : p.declared.userMethodCount < p.knobs.get .maxMethods) :
    ¬p.Allows .methodProbability := by
  intro allowed
  unfold Allows Knobs.probability at allowed
  rcases methodless.none with never | none <;> omega

theorem later (methodless : p.Methodless) (same : p.SameMethods p') (arena : p'.arena = p.arena) :
    p'.Methodless where
  none := by
    rw [same.later.knobs]
    exact methodless.none
  undeclared := same.userMethodCount.trans methodless.undeclared
  incomplete := same.methods.trans methodless.incomplete
  callless e := by
    rw [node, arena]
    exact methodless.callless e

theorem add (methodless : p.Methodless) {node : Node} (t : Ty) (callless : node.callee? = .none) :
    (p.add node t).2.Methodless where
  none := methodless.none
  undeclared := methodless.undeclared
  incomplete := methodless.incomplete
  callless e := by
    rcases p.node_add_cases node t e with ⟨_, new⟩ | old
    · rw [new]
      exact callless
    · rw [old]
      exact methodless.callless e

theorem addAssignment (methodless : p.Methodless) (v : Var) (source : ExprId) :
    (p.addAssignment v source).2.Methodless :=
  (methodless.later (p.sameMethods_setInitialized v) rfl).add _ rfl

theorem recordCost (methodless : p.Methodless) (m : MethodId) (body : Block) :
    (p.recordCost m body).Methodless :=
  methodless.later (p.sameMethods_recordCost m body) rfl

theorem applied (methodless : p.Methodless) (use : OperatorUse) (t : Ty) (left right : ExprId) :
    (p.applied use t left right).2.Methodless :=
  applied_induction (R := fun q _ => q.Methodless)
    (fun _ t _ methodless => ⟨methodless.add t rfl, fun _ _ => methodless.add t rfl⟩)
    (fun _ _ t _ _ methodless _ => methodless.add t rfl) methodless methodless use t

end Methodless

end Program

def Task.Methodless (p : Program) : Task → Prop
  | .callee _ _ _ => False
  | .method _ _ _ => True
  | _ => p.Methodless

theorem Run.methodless {task : Task} {p p' : Program} {r : task.Outcome} (run : Run task p r p') :
    p.Methodless → task.Methodless p' := by
  induction run with
  | reuse | argumentReuse | boundReuse | boundLiteral =>
    exact fun methodless => methodless.add _ rfl
  | argumentDirect _ _ _ _ makes => exact fun methodless => methodless.add _ makes.callee?_eq_none
  | exprCall _ _ _ _ ih | argumentExpr _ _ ih | endingValue _ _ ih | print _ _ _ _ ih
  | callStatement _ _ _ _ ih | detourBuilder _ _ _ _ ih => exact ih
  | assign _ _ _ _ _ _ _ ih | assignStatement _ _ _ _ _ ih =>
    exact fun methodless => (ih methodless).addAssignment ..
  | binary _ _ _ _ _ ihLeft ihRight =>
    exact fun methodless => (ihRight (ihLeft methodless)).applied ..
  | cast _ _ _ _ _ ih => exact fun methodless => (ih methodless).add _ rfl
  | build _ _ _ makes ih => exact fun methodless => (ih methodless).add _ makes.callee?_eq_none
  | exprAfter _ _ ih ih' | argumentsCons _ _ ih ih' | statementAfter _ _ _ ih ih'
  | blockCons _ _ ih ih' | detourTrans _ _ ih ih' | ifThen _ _ _ _ _ _ _ ih ih' =>
    exact fun methodless => ih' (ih methodless)
  | argumentsNil | endingVoid | noStatement | blockNil | noDetour => exact id
  -- calls are the only way to a method, and there is nothing to call
  | calleeFound found =>
    intro methodless
    rw [methodless.callable_eq_nil] at found
    contradiction
  | calleeNew room allowed => exact fun methodless => methodless.not_allows room allowed
  | call _ _ _ _ _ ih | detourMethod _ _ _ _ ih | detourCall _ _ _ _ _ _ ih =>
    exact fun methodless => (ih methodless).elim
  | method => exact fun _ => trivial
  | declare _ _ _ _ _ ih =>
    exact fun methodless => (ih methodless).later (sameMethods_addInitializedLocal ..) rfl
  | declareField _ _ _ _ _ ih =>
    exact fun methodless => (ih methodless).later ⟨extends_addInitializedField .., rfl, rfl, rfl⟩ rfl
  | ifElse _ _ _ _ _ _ _ _ _ _ ihCondition ihBody ihOtherwise =>
    exact fun methodless => ihOtherwise (ihBody (ihCondition methodless))
  | loop _ _ _ _ _ _ counter _ _ ihBound ihBody =>
    intro methodless
    subst counter
    exact ihBody ((ihBound methodless).later ⟨extends_addCounter _, rfl, rfl, rfl⟩ rfl)

/-! The length of the entry is the first thing drawn, before anything is made. -/

theorem Gen.view_bind {α β : Type} (g : Program → α) (f : α → Gen β) (s : Draft) :
    (Gen.view g >>= f) s = f (g s.program) s := rfl

theorem Gen.draw_bind {α β : Type} (d : Draw α) (f : α → Gen β) (s : Draft) :
    (Gen.draw d >>= f) s = f (d s.stream).1 { s with stream := (d s.stream).2 } := rfl

theorem entryBody_of_block {c : Catalog} {p : Program} {stream : Stream} {body : Block} {s : Draft}
    (done : Gen.block (entrySite c p.knobs) (length (p.knobs.get .maxProgramLength) stream).1
      ⟨p, (length (p.knobs.get .maxProgramLength) stream).2⟩ = .ok body s) :
    entryBody c ⟨p, stream⟩ = .ok () ⟨s.program.closeEntry body, s.stream⟩ := by
  unfold entryBody
  rw [Gen.view_bind, Gen.draw_bind]
  change EStateM.bind (Gen.block (entrySite c p.knobs) _) _ _ = _
  rw [EStateM.bind, done]
  rfl

theorem generateWith_drawn (catalog : Catalog) (seed : UInt64) (config : Config) :
    ∃ p c, generateWith catalog seed config = .ok (p, c) ∧ ∃ body q,
      Run (.block (entrySite c config.knobs)
        (length (config.knobs.get .maxProgramLength) (.ofSeed seed)).1)
        (.new config.className seed config.knobs) body q ∧ p = q.closeEntry body := by
  refine generateWith_of_entryBody catalog seed config fun c prepared => ?_
  obtain ⟨body, s, done, run⟩ := ensures_block (sound_new ..)
    (good_entrySite prepared config.className seed)
    (length (config.knobs.get .maxProgramLength) (.ofSeed seed)).2
  exact ⟨_, entryBody_of_block done, body, s.program, run, rfl⟩

theorem always_length_pos {limit : Nat} (positive : 0 < limit) : Always (length limit) (1 ≤ ·) := by
  unfold length
  rw [if_neg (Nat.ne_of_gt positive)]
  exact Always.bind (always_index positive) fun i _ => Always.pure (Nat.le_add_left 1 i)

theorem flat_new (className : String) (seed : UInt64) {knobs : Knobs}
    (certain : knobs.get .printProbability = 100) : (new className seed knobs).Flat where
  certain may := by
    change min (knobs.get .printProbability) 100 < 100 at may
    omega
  fields := rfl
  records := rfl
  bodies m none := by contradiction

theorem methodless_new (className : String) (seed : UInt64) {knobs : Knobs}
    (none : knobs.get .methodProbability = 0 ∨ knobs.get .maxMethods = 0) :
    (new className seed knobs).Methodless where
  none := none
  undeclared := rfl
  incomplete := rfl
  callless _ := rfl

/-- Where prints are certain, whatever the other settings, no field is declared, and the entry has as many
prints as statements were drawn for it, and nothing else. All other methods print up to their end,
which is a return at most. Where no method can be declared either, there is none, and none is called. -/
theorem generated_prints (catalog : Catalog) (seed : UInt64) (config : Config)
    (certain : config.knobs.get .printProbability = 100) :
    ∃ p c, generateWith catalog seed config = .ok (p, c) ∧
      p.fields = #[] ∧ p.declared.fields = #[] ∧
      p.entry.body.Prints (length (config.knobs.get .maxProgramLength) (.ofSeed seed)).1 ∧
      (0 < config.knobs.get .maxProgramLength → 1 ≤ p.entry.body.length) ∧
      (∀ m ∈ p.methods.toList, ∃ n body last, m.body = body ++ last ∧ Block.Prints n body ∧
        (last = [] ∨ last = [.returnVoid] ∨ ∃ e, last = [.returnValue e])) ∧
      (config.knobs.get .methodProbability = 0 ∨ config.knobs.get .maxMethods = 0 →
        p.methods = #[] ∧ p.declared.userMethodCount = 0 ∧
        ∀ e < p.exprCount, (p.node e).callee? = none) := by
  obtain ⟨p, c, done, body, q, run, rfl⟩ := generateWith_drawn catalog seed config
  obtain ⟨flat, prints⟩ := run.flat (flat_new config.className seed certain)
  refine ⟨_, c, done, flat.fields, Array.eq_empty_of_size_eq_zero flat.records, prints, ?_,
    flat.bodies, fun none => ?_⟩
  · intro positive
    exact (always_length_pos positive (.ofSeed seed)).trans_eq prints.length.symm
  · have methodless := (run.methodless (methodless_new config.className seed none)).recordCost
      entryId body
    exact ⟨methodless.incomplete, methodless.undeclared, fun e _ => methodless.callless e⟩

/-- A class for which prints are certain and there is no room for methods. -/
theorem methodless_prints :
    let knobs := (Knobs.default.put .printProbability 100 (by decide)).put .maxMethods 0 (by decide)
    knobs.get .printProbability = 100 ∧
    ∃ p c, generateWith .new 7 ⟨"T", knobs⟩ = .ok (p, c) ∧ p.fields = #[] ∧ p.methods = #[] ∧
      1 ≤ p.entry.body.length := by
  intro knobs
  have certain : knobs.get .printProbability = 100 := by decide
  obtain ⟨p, c, done, fields, _, _, positive, _, none⟩ := generated_prints .new 7 ⟨"T", knobs⟩ certain
  exact ⟨certain, p, c, done, fields, (none (.inr (by decide))).1, positive (by decide)⟩

end JavaSmith
