import JavaSmith.Proofs.History
import JavaSmith.Proofs.Run

/-! What is in a class stays there. Nodes, fields, methods and calls are never taken back, and the
records of variables and methods keep everything but whether a value is held and what a call
costs. -/
namespace JavaSmith

def Field.fixed (f : Field) : Field := { f with isInitialized := false }

def Local.fixed (l : Local) : Local := { l with isInitialized := false }

/-- What never changes of the record of a method. -/
def Method.fixed (m : Method) : Method := { m with cost := 0 }

theorem getElem?_of_prefix {α : Type} {xs ys : List α} (h : xs <+: ys) {i : Nat}
    (inside : i < xs.length) : ys[i]? = xs[i]? := by
  obtain ⟨later, rfl⟩ := h
  exact List.getElem?_append_left inside

theorem getD_of_prefix {α β : Type} {f : α → β} {xs ys : Array α}
    (h : xs.toList.map f <+: ys.toList.map f) {i : Nat} (inside : i < xs.size) (d : α) :
    f (ys[i]?.getD d) = f (xs[i]?.getD d) := by
  have kept := getElem?_of_prefix h (i := i) (by simpa using inside)
  rw [List.getElem?_map, List.getElem?_map, Array.getElem?_toList, Array.getElem?_toList] at kept
  rw [← Option.getD_map f, kept, Option.getD_map]

theorem mem_toList_push {α : Type} {xs : Array α} {a b : α} (member : b ∈ (xs.push a).toList) :
    b ∈ xs.toList ∨ b = a := by
  rwa [Array.toList_push, List.mem_append, List.mem_singleton] at member

theorem prefix_map_push {α β : Type} (f : α → β) (xs : Array α) (a : α) :
    xs.toList.map f <+: (xs.push a).toList.map f := by
  simp

theorem map_toList_modify {α β : Type} {f : α → β} {g : α → α} (xs : Array α) (i : Nat)
    (same : ∀ a, f (g a) = f a) : (xs.modify i g).toList.map f = xs.toList.map f := by
  rw [Array.toList_modify]
  apply List.ext_getElem?
  intro j
  rw [List.getElem?_map, List.getElem?_map, List.getElem?_modify]
  cases xs.toList[j]? with
  | none => rfl
  | some a =>
    dsimp only [Option.map_eq_map, Option.map_some]
    split
    · rw [same]
    · rfl

theorem prefix_map_modify {α β : Type} {f : α → β} {g : α → α} (xs : Array α) (i : Nat)
    (same : ∀ a, f (g a) = f a) : xs.toList.map f <+: (xs.modify i g).toList.map f :=
  map_toList_modify xs i same ▸ List.prefix_rfl

namespace Declarations

def Declares (d : Declarations) : Var → Prop
  | .field id => id < d.fields.size
  | .localVar id => id < d.locals.size

theorem userMethodCount_eq (d : Declarations) :
    d.userMethodCount = (d.methods.toList.map Method.fixed).countP (!·.isEntry) := by
  rw [List.countP_map, userMethodCount, ← Array.countP_toList]
  rfl

end Declarations

namespace Program

/-- The second class is the first one or a later state of it. -/
structure Extends (p p' : Program) : Prop where
  className : p'.className = p.className
  seed : p'.seed = p.seed
  knobs : p'.knobs = p.knobs
  entry : p'.entry.method = p.entry.method
  entryParams : p'.entry.params = p.entry.params
  arena : p.arena.toList <+: p'.arena.toList
  fields : p.fields.toList <+: p'.fields.toList
  methods : p.methods.toList <+: p'.methods.toList
  fieldRecords : p.declared.fields.toList.map Field.fixed <+:
    p'.declared.fields.toList.map Field.fixed
  localRecords : p.declared.locals.toList.map Local.fixed <+:
    p'.declared.locals.toList.map Local.fixed
  methodRecords : p.declared.methods.toList.map Method.fixed <+:
    p'.declared.methods.toList.map Method.fixed
  calls : ∀ a b, p.declared.calls.Calls a b → p'.declared.calls.Calls a b

namespace Extends

theorem refl (p : Program) : p.Extends p where
  className := rfl
  seed := rfl
  knobs := rfl
  entry := rfl
  entryParams := rfl
  arena := List.prefix_refl _
  fields := List.prefix_refl _
  methods := List.prefix_refl _
  fieldRecords := List.prefix_refl _
  localRecords := List.prefix_refl _
  methodRecords := List.prefix_refl _
  calls := fun _ _ h => h

theorem trans {p p' p'' : Program} (h : p.Extends p') (h' : p'.Extends p'') : p.Extends p'' where
  className := h'.className.trans h.className
  seed := h'.seed.trans h.seed
  knobs := h'.knobs.trans h.knobs
  entry := h'.entry.trans h.entry
  entryParams := h'.entryParams.trans h.entryParams
  arena := h.arena.trans h'.arena
  fields := h.fields.trans h'.fields
  methods := h.methods.trans h'.methods
  fieldRecords := h.fieldRecords.trans h'.fieldRecords
  localRecords := h.localRecords.trans h'.localRecords
  methodRecords := h.methodRecords.trans h'.methodRecords
  calls := fun a b call => h'.calls a b (h.calls a b call)

variable {p p' : Program}

theorem arena_size (h : p.Extends p') : p.arena.size ≤ p'.arena.size := by
  simpa using h.arena.length_le

theorem locals_size (h : p.Extends p') : p.declared.locals.size ≤ p'.declared.locals.size := by
  simpa using h.localRecords.length_le

theorem fields_size (h : p.Extends p') : p.declared.fields.size ≤ p'.declared.fields.size := by
  simpa using h.fieldRecords.length_le

theorem methods_size (h : p.Extends p') : p.declared.methods.size ≤ p'.declared.methods.size := by
  simpa using h.methodRecords.length_le

theorem arena_getElem? (h : p.Extends p') {e : ExprId} (inside : e < p.arena.size) :
    p'.arena[e]? = p.arena[e]? := by
  have := getElem?_of_prefix h.arena (i := e) inside
  rwa [Array.getElem?_toList, Array.getElem?_toList] at this

theorem node (h : p.Extends p') {e : ExprId} (inside : e < p.arena.size) :
    p'.node e = p.node e := by
  unfold Program.node
  rw [h.arena_getElem? inside]

theorem typeOf (h : p.Extends p') {e : ExprId} (inside : e < p.arena.size) :
    p'.typeOf e = p.typeOf e := by
  unfold Program.typeOf
  rw [h.arena_getElem? inside]

theorem localVar (h : p.Extends p') {l : LocalId} (inside : l < p.declared.locals.size) :
    (p'.declared.localVar l).fixed = (p.declared.localVar l).fixed :=
  getD_of_prefix h.localRecords inside default

theorem field (h : p.Extends p') {id : FieldId} (inside : id < p.declared.fields.size) :
    (p'.declared.field id).fixed = (p.declared.field id).fixed :=
  getD_of_prefix h.fieldRecords inside default

theorem method (h : p.Extends p') {m : MethodId} (inside : m < p.declared.methods.size) :
    (p'.declared.method m).fixed = (p.declared.method m).fixed :=
  getD_of_prefix h.methodRecords inside default

theorem declares (h : p.Extends p') {v : Var} (declared : p.declared.Declares v) :
    p'.declared.Declares v := by
  cases v with
  | field id => exact Nat.lt_of_lt_of_le declared h.fields_size
  | localVar id => exact Nat.lt_of_lt_of_le declared h.locals_size

theorem typeOf_var (h : p.Extends p') {v : Var} (declared : p.declared.Declares v) :
    p'.declared.typeOf v = p.declared.typeOf v := by
  cases v with
  | field id => exact (congrArg Field.type (h.field declared) :)
  | localVar id => exact (congrArg Local.type (h.localVar declared) :)

theorem isReadOnly (h : p.Extends p') {v : Var} (declared : p.declared.Declares v) :
    p'.declared.isReadOnly v = p.declared.isReadOnly v := by
  cases v with
  | field id => exact (congrArg (fun f => f.modifiers.isFinal) (h.field declared) :)
  | localVar id => exact (congrArg (fun l => l.isCounter || l.modifiers.isFinal) (h.localVar declared) :)

theorem params (h : p.Extends p') {m : MethodId} (inside : m < p.declared.methods.size) :
    (p'.declared.method m).params = (p.declared.method m).params :=
  (congrArg Method.params (h.method inside) :)

theorem returns (h : p.Extends p') {m : MethodId} (inside : m < p.declared.methods.size) :
    (p'.declared.method m).returns = (p.declared.method m).returns :=
  (congrArg Method.returns (h.method inside) :)

theorem isStatic (h : p.Extends p') {m : MethodId} (inside : m < p.declared.methods.size) :
    (p'.declared.method m).isStatic = (p.declared.method m).isStatic :=
  (congrArg Method.isStatic (h.method inside) :)

theorem isEntry (h : p.Extends p') {m : MethodId} (inside : m < p.declared.methods.size) :
    (p'.declared.method m).isEntry = (p.declared.method m).isEntry :=
  (congrArg Method.isEntry (h.method inside) :)

theorem allows (h : p.Extends p') {k : Knob} : p'.Allows k ↔ p.Allows k := by
  unfold Program.Allows
  rw [h.knobs]

theorem mayNotPrint (h : p.Extends p') : p'.MayNotPrint ↔ p.MayNotPrint := by
  unfold Program.MayNotPrint
  rw [h.knobs]

theorem nestedLimit (h : p.Extends p') : p'.nestedLimit = p.nestedLimit := by
  unfold Program.nestedLimit
  rw [h.knobs]

theorem userMethodCount (h : p.Extends p') :
    p.declared.userMethodCount ≤ p'.declared.userMethodCount := by
  rw [Declarations.userMethodCount_eq, Declarations.userMethodCount_eq]
  exact h.methodRecords.sublist.countP_le

end Extends

/-! Each step on a class makes a later state of it. -/

theorem extends_add (p : Program) (node : Node) (t : Ty) : p.Extends (p.add node t).2 where
  __ := Extends.refl p
  arena := by simp [add]

theorem extends_setInitialized (p : Program) (v : Var) :
    p.Extends { p with declared := p.declared.setInitialized v } := by
  cases v with
  | field id =>
    exact { Extends.refl p with
      fieldRecords := by
        refine prefix_map_modify _ _ ?_
        intro f
        rfl }
  | localVar id =>
    exact { Extends.refl p with
      localRecords := by
        refine prefix_map_modify _ _ ?_
        intro l
        rfl }

theorem extends_addAssignment (p : Program) (v : Var) (source : ExprId) :
    p.Extends (p.addAssignment v source).2 :=
  (p.extends_setInitialized v).trans (extends_add ..)

theorem extends_addInitializedLocal (p : Program) (modifiers : Modifiers) (t : Ty) :
    p.Extends (p.addInitializedLocal modifiers t).2 := by
  have added : p.Extends { p with declared := p.declared.addLocal modifiers t } :=
    { Extends.refl p with localRecords := prefix_map_push .. }
  exact added.trans (extends_setInitialized _ _)

theorem extends_addCounter (p : Program) : p.Extends p.addCounter.2 where
  __ := Extends.refl p
  localRecords := prefix_map_push ..

theorem extends_addInitializedField (p : Program) (modifiers : Modifiers) (t : Ty)
    (initializer : ExprId) : p.Extends (p.addInitializedField modifiers t initializer) := by
  have added : p.Extends { p with declared := p.declared.addField modifiers t } :=
    { Extends.refl p with fieldRecords := prefix_map_push .. }
  have initialized := added.trans (extends_setInitialized _ (.field p.declared.fields.size))
  exact { initialized with fields := by simp [addInitializedField] }

theorem extends_addMethod (p : Program) (modifiers : Modifiers) (params : List Ty) (returns : Ty) :
    p.Extends (p.addMethod modifiers params returns).2 where
  __ := Extends.refl p
  methodRecords := prefix_map_push ..
  calls := by
    intro a b call
    exact (congrFun (congrFun (CallGraph.calls_addMethod _) a) b).mpr call

theorem extends_recordCost (p : Program) (m : MethodId) (body : Block) :
    p.Extends (p.recordCost m body) where
  __ := Extends.refl p
  methodRecords := by
    refine prefix_map_modify _ _ ?_
    intro record
    rfl

theorem extends_addBody (p : Program) (m : MethodDeclaration) : p.Extends (p.addBody m) where
  __ := Extends.refl p
  methods := by simp [addBody]

theorem extends_addCallEdge {p : Program} {caller callee : MethodId} {d : Declarations}
    (recorded : p.declared.addCallEdge caller callee = .ok d) :
    p.Extends { p with declared := d } := by
  obtain ⟨_, _, g, added, rfl⟩ := Declarations.addCallEdge_eq_ok_iff.1 recorded
  exact { Extends.refl p with calls := fun a b call => CallGraph.calls_of_addEdge? added call }

theorem extends_addBinary (p : Program) (op : Operator) (result : Ty) (left right : ExprId) :
    p.Extends (p.addBinary op result left right).2 :=
  extends_add ..

theorem extends_coerced (p : Program) (e : ExprId) (kind : Kind) :
    p.Extends (p.coerced e kind).2 := by
  unfold coerced
  split
  · exact .refl p
  · exact extends_add ..

theorem extends_coercedOperands (p : Program) (use : Generator.OperatorUse) (left right : ExprId) :
    p.Extends (p.coercedOperands use left right).2 := by
  unfold coercedOperands
  split
  · exact .refl p
  · exact (extends_coerced ..).trans (extends_coerced ..)

/-- An operator adds casts and one operation. What these keep of the expressions that are there, and
give to their own, the operator gives to its result. -/
theorem applied_induction {R : Program → ExprId → Prop} {p : Program} {left right : ExprId}
    (cast : ∀ p t e, R p e →
      R (p.addCast t e).2 (p.addCast t e).1 ∧ ∀ o, R p o → R (p.addCast t e).2 o)
    (binary : ∀ p op t left right, R p left → R p right →
      R (p.addBinary op t left right).2 (p.addBinary op t left right).1)
    (first : R p left) (second : R p right) (use : Generator.OperatorUse) (t : Ty) :
    R (p.applied use t left right).2 (p.applied use t left right).1 := by
  have coerced (p : Program) (e : ExprId) (kind : Kind) (holds : R p e) :
      R (p.coerced e kind).2 (p.coerced e kind).1 ∧ ∀ o, R p o → R (p.coerced e kind).2 o := by
    unfold Program.coerced
    split
    · exact ⟨holds, fun _ => id⟩
    · exact cast p _ e holds
  have operands : R (p.coercedOperands use left right).2 (p.coercedOperands use left right).1.1 ∧
      R (p.coercedOperands use left right).2 (p.coercedOperands use left right).1.2 := by
    unfold coercedOperands
    cases use.kind? with
    | none => exact ⟨first, second⟩
    | some kind =>
      obtain ⟨new, kept⟩ := coerced p left kind first
      obtain ⟨new', kept'⟩ := coerced _ right (if use.op.isShift then .int else kind)
        (kept right second)
      exact ⟨kept' _ new, new'⟩
  have result := binary _ use.op use.resultType _ _ operands.1 operands.2
  unfold applied
  dsimp only
  split
  · exact result
  · exact (cast _ t _ result).1

theorem extends_applied (p : Program) (use : Generator.OperatorUse) (t : Ty)
    (left right : ExprId) : p.Extends (p.applied use t left right).2 :=
  applied_induction (R := fun q _ => p.Extends q)
    (fun q t e h => ⟨h.trans (q.extends_add (.cast t e) t), fun _ h => h.trans (extends_add ..)⟩)
    (fun q op t l r h _ => h.trans (q.extends_addBinary op t l r)) (.refl p) (.refl p) use t

theorem extends_addParameters (p : Program) (params : List Ty) :
    p.Extends (p.addParameters params).2 := by
  induction params generalizing p with
  | nil => exact .refl p
  | cons t rest ih => exact (p.extends_addInitializedLocal .none t).trans (ih _)

theorem extends_closeMethod (p : Program) (m : MethodId) (params : List LocalId) (body : Block) :
    p.Extends (p.closeMethod m params body) :=
  (p.extends_recordCost m body).trans (extends_addBody ..)

end Program

open Program

theorem Opening.extends {site : Site} {caller : MethodId} {wanted : Option Ty} {p : Program}
    (o : Opening site caller wanted p) : p.Extends o.program := by
  have added := p.extends_addMethod ⟨false, true, o.isStatic, false⟩ o.params o.returns
  exact (added.trans (extends_addCallEdge o.recorded)).trans (extends_addParameters ..)

/-- A run only ever adds to a class. -/
theorem Run.extends {task : Task} {p p' : Program} {r : task.Outcome} (run : Run task p r p') :
    p.Extends p' := by
  induction run with
  | reuse | argumentReuse | boundReuse | boundLiteral | argumentDirect => exact extends_add ..
  | exprCall _ _ _ _ ih | argumentExpr _ _ ih | calleeNew _ _ _ ih | endingValue _ _ ih
  | print _ _ _ _ ih | callStatement _ _ _ _ ih | detourMethod _ _ _ _ ih
  | detourBuilder _ _ _ _ ih => exact ih
  | assign _ _ _ _ _ _ _ ih | assignStatement _ _ _ _ _ ih =>
    exact ih.trans (extends_addAssignment ..)
  | binary _ _ _ _ _ left right => exact (left.trans right).trans (extends_applied ..)
  | cast _ _ _ _ _ ih => exact ih.trans (extends_add ..)
  | build _ _ _ _ ih => exact ih.trans (extends_add ..)
  | exprAfter _ _ first second | argumentsCons _ _ first second | statementAfter _ _ _ first second
  | blockCons _ _ first second | detourTrans _ _ first second
  | ifThen _ _ _ _ _ _ _ first second | detourCall _ _ _ _ _ _ first second =>
    exact first.trans second
  | argumentsNil | endingVoid | noStatement | blockNil | noDetour => exact .refl _
  | calleeFound _ _ _ recorded => exact extends_addCallEdge recorded
  | call _ _ _ _ _ callee args => exact (callee.trans args).trans (extends_add ..)
  | @method _ _ _ _ _ _ o _ _ _ _ _ _ body ending =>
    exact ((o.extends.trans body).trans ending).trans (extends_closeMethod ..)
  | declare _ _ _ _ _ ih => exact ih.trans (extends_addInitializedLocal ..)
  | declareField _ _ _ _ _ ih => exact ih.trans (extends_addInitializedField ..)
  | ifElse _ _ _ _ _ _ _ _ _ _ condition body otherwise =>
    exact (condition.trans body).trans otherwise
  | loop _ _ _ _ _ _ counter _ _ bound body =>
    subst counter
    exact (bound.trans (extends_addCounter _)).trans body

end JavaSmith
