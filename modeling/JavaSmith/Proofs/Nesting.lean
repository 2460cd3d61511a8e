import JavaSmith.Proofs.Soundness

/-! How methods nest while they are written. A method is written in the middle of another one, so those
that are not complete form a chain of callers that ends at the current one. What may be called from
there is therefore complete, and the order in which methods are completed puts callees first. -/
namespace JavaSmith

open Relation

namespace Node

def callee? : Node → Option MethodId
  | .call callee _ _ => callee.method
  | _ => none

def operands : Node → List ExprId
  | .constant _ | .read _ | .hole => []
  | .call _ receiver args => receiver.toList ++ args
  | .construct _ args => args
  | .newArray _ sizes => sizes
  | .cast _ operand => [operand]
  | .binary _ left right => [left, right]
  | .assign _ source => [source]

end Node

namespace Program

def Operand (p : Program) (e o : ExprId) : Prop := o ∈ (p.node e).operands

def Invokes (p : Program) (e : ExprId) (m : MethodId) : Prop :=
  ∃ o, ReflTransGen p.Operand e o ∧ (p.node o).callee? = some m

/-- Operands were made before what they are parts of. -/
def Grounded (p : Program) : Prop := ∀ e o, p.Operand e o → o < e

/-- The expression has been made, and whatever it calls satisfies `Q`. -/
structure Calling (p : Program) (Q : MethodId → Prop) (e : ExprId) : Prop where
  inside : e < p.arena.size
  calls : ∀ k, p.Invokes e k → Q k

/-- Every call in the expression is recorded as one from the method; outside every method there is
none. -/
structure Recorded (p : Program) (m? : Option MethodId) (e : ExprId) : Prop where
  inside : e < p.arena.size
  calls : ∀ k, p.Invokes e k → ∃ m, m? = some m ∧ p.declared.calls.Calls m k

abbrev RecordedIn (p : Program) (m? : Option MethodId) (b : Block) : Prop := b.All (p.Recorded m?)

def completed (p : Program) : List MethodId := p.methods.toList.map MethodDeclaration.method

/-- What holds of the calls of the class as a whole. -/
structure Ordered (p : Program) : Prop where
  tracks : p.declared.Tracks
  grounded : p.Grounded
  entry : ∀ m < p.declared.methods.size, (p.declared.method m).isEntry = true ↔ m = entryId
  entryUncalled : ∀ m, ¬p.declared.calls.Calls m entryId
  fields : ∀ f ∈ p.fields.toList, p.Recorded none f.initializer
  bodies : ∀ m ∈ p.methods.toList, p.RecordedIn (some m.method) m.body
  known : ∀ m ∈ p.completed, m < p.declared.methods.size
  once : p.completed.Nodup
  calleesFirst : ∀ a ∈ p.completed, ∀ b, p.declared.calls.Calls a b → [b, a].Sublist p.completed

structure Writes (p : Program) (m : MethodId) : Prop where
  known : m < p.declared.methods.size
  incomplete : m ∉ p.completed
  ancestors : ∀ a < p.declared.methods.size, a ∉ p.completed → p.declared.calls.Reaches a m
  callees : ∀ b, p.declared.calls.Calls m b → b ∈ p.completed

/-- What happens while `m` is written: calls are added to it and to new methods alone, and these are
completed. -/
structure Proceeds (m : MethodId) (p p' : Program) : Prop where
  later : p.Extends p'
  calls : ∀ a < p.declared.methods.size, a ≠ m → ∀ b, p'.declared.calls.Calls a b →
    p.declared.calls.Calls a b
  fresh : ∀ a < p'.declared.methods.size, p.declared.methods.size ≤ a → a ∈ p'.completed
  old : ∀ a ∈ p'.completed, a ∈ p.completed ∨ p.declared.methods.size ≤ a

variable {p p' p'' : Program} {m : MethodId} {m? : Option MethodId} {e : ExprId}

theorem Extends.completed (h : p.Extends p') : p.completed <+: p'.completed :=
  h.methods.map _

namespace Proceeds

theorem refl (m : MethodId) (p : Program) : Proceeds m p p where
  later := .refl p
  calls := fun _ _ _ _ call => call
  fresh := fun _ below above => absurd above (Nat.not_le_of_lt below)
  old := fun _ member => .inl member

theorem trans (first : Proceeds m p p') (second : Proceeds m p' p'') : Proceeds m p p'' where
  later := first.later.trans second.later
  calls a old other b call :=
    first.calls a old other b
      (second.calls a (Nat.lt_of_lt_of_le old first.later.methods_size) other b call)
  fresh a below new := by
    by_cases early : a < p'.declared.methods.size
    · exact second.later.completed.subset (first.fresh a early new)
    · exact second.fresh a below (Nat.le_of_not_lt early)
  old a member := by
    rcases second.old a member with early | new
    · exact first.old a early
    · exact .inr (Nat.le_trans first.later.methods_size new)

end Proceeds

structure SameMethods (p p' : Program) : Prop where
  later : p.Extends p'
  calls : p'.declared.calls = p.declared.calls
  size : p'.declared.methods.size = p.declared.methods.size
  methods : p'.methods = p.methods

namespace SameMethods

theorem completed (same : p.SameMethods p') : p'.completed = p.completed := by
  unfold Program.completed
  rw [same.methods]

theorem userMethodCount (same : p.SameMethods p') :
    p'.declared.userMethodCount = p.declared.userMethodCount := by
  have records := same.later.methodRecords.eq_of_length (by simpa using same.size.symm)
  rw [Declarations.userMethodCount_eq, Declarations.userMethodCount_eq, records]

theorem proceeds (same : p.SameMethods p') (m : MethodId) : Proceeds m p p' where
  later := same.later
  calls _ _ _ _ call := same.calls ▸ call
  fresh _ below new := absurd new (Nat.not_le_of_lt (same.size ▸ below))
  old _ member := .inl (same.completed ▸ member)

theorem writes (same : p.SameMethods p') (writes : p.Writes m) : p'.Writes m where
  known := same.size ▸ writes.known
  incomplete := same.completed ▸ writes.incomplete
  ancestors := by
    rw [same.size, same.completed, same.calls]
    exact writes.ancestors
  callees := by
    rw [same.completed, same.calls]
    exact writes.callees

end SameMethods

/-! What is in a class stays recorded. -/

theorem Invokes.of_later (grounded : p.Grounded) (h : p.Extends p') (inside : e < p.arena.size)
    {k : MethodId} (invokes : p'.Invokes e k) : p.Invokes e k := by
  obtain ⟨o, path, called⟩ := invokes
  induction path using ReflTransGen.head_induction_on with
  | refl => exact ⟨o, .refl, by rwa [h.node inside] at called⟩
  | head operand _ ih =>
    unfold Operand at operand
    rw [h.node inside] at operand
    obtain ⟨o', path', called'⟩ := ih (Nat.lt_trans (grounded _ _ operand) inside)
    exact ⟨o', .head operand path', called'⟩

theorem Recorded.later (recorded : p.Recorded m? e) (grounded : p.Grounded) (h : p.Extends p') :
    p'.Recorded m? e where
  inside := Nat.lt_of_lt_of_le recorded.inside h.arena_size
  calls k invokes := by
    obtain ⟨m, same, call⟩ := recorded.calls k (invokes.of_later grounded h recorded.inside)
    exact ⟨m, same, h.calls m k call⟩

theorem RecordedIn.later {b : Block} (recorded : p.RecordedIn m? b) (grounded : p.Grounded)
    (h : p.Extends p') : p'.RecordedIn m? b :=
  recorded.mono fun _ root => root.later grounded h

/-! Steps that add neither methods nor calls. -/

theorem Ordered.of_same (ordered : p.Ordered) (same : p.SameMethods p') (grounded : p'.Grounded)
    (fields : ∀ f ∈ p'.fields.toList, f ∈ p.fields.toList ∨ p.Recorded none f.initializer) :
    p'.Ordered where
  tracks := ⟨same.calls ▸ ordered.tracks.exact, by rw [same.calls, same.size, ordered.tracks.sizes]⟩
  grounded := grounded
  entry m inside := by
    rw [same.size] at inside
    rw [same.later.isEntry inside]
    exact ordered.entry m inside
  entryUncalled := same.calls ▸ ordered.entryUncalled
  fields f member :=
    ((fields f member).elim (ordered.fields f) id).later ordered.grounded same.later
  bodies m member :=
    (ordered.bodies m (same.methods ▸ member)).later ordered.grounded same.later
  known := by
    rw [same.completed, same.size]
    exact ordered.known
  once := same.completed ▸ ordered.once
  calleesFirst := by
    rw [same.completed, same.calls]
    exact ordered.calleesFirst

theorem sameMethods_add (p : Program) (node : Node) (t : Ty) : p.SameMethods (p.add node t).2 :=
  ⟨p.extends_add node t, rfl, rfl, rfl⟩

theorem node_add_cases (p : Program) (node : Node) (t : Ty) (e : ExprId) :
    e = p.arena.size ∧ (p.add node t).2.node e = node ∨ (p.add node t).2.node e = p.node e := by
  by_cases new : e = p.arena.size
  · exact .inl ⟨new, new ▸ p.node_add node t⟩
  · refine .inr ?_
    simp [Program.node, add, Array.getElem?_push, new]

theorem Grounded.add (grounded : p.Grounded) {node : Node} (t : Ty)
    (inside : ∀ o ∈ node.operands, o < p.arena.size) : (p.add node t).2.Grounded := by
  intro e o operand
  unfold Operand at operand
  rcases p.node_add_cases node t e with ⟨rfl, new⟩ | old
  · rw [new] at operand
    exact inside o operand
  · rw [old] at operand
    exact grounded e o operand

namespace Calling

variable {Q : MethodId → Prop}

theorem later (calling : p.Calling Q e) (grounded : p.Grounded) (h : p.Extends p') :
    p'.Calling Q e where
  inside := Nat.lt_of_lt_of_le calling.inside h.arena_size
  calls k invokes := calling.calls k (invokes.of_later grounded h calling.inside)

theorem add (grounded : p.Grounded) {node : Node} (t : Ty)
    (operands : ∀ o ∈ node.operands, p.Calling Q o) (own : ∀ k, node.callee? = some k → Q k) :
    (p.add node t).2.Calling Q (p.add node t).1 where
  inside := by simp [Program.add]
  calls k invokes := by
    have new := p.node_add node t
    obtain ⟨o, path, called⟩ := invokes
    rcases path.cases_head with rfl | ⟨first, operand, rest⟩
    · exact own k (new ▸ called)
    · have member : first ∈ node.operands := by
        have : first ∈ ((p.add node t).2.node p.arena.size).operands := operand
        rwa [new] at this
      exact ((operands first member).later grounded (p.extends_add node t)).calls k ⟨o, rest, called⟩

theorem addCallless (grounded : p.Grounded) {node : Node} (t : Ty)
    (operands : ∀ o ∈ node.operands, p.Calling Q o) (callless : node.callee? = none) :
    (p.add node t).2.Grounded ∧ (p.add node t).2.Calling Q (p.add node t).1 :=
  ⟨grounded.add t fun o member => (operands o member).inside,
    .add grounded t operands fun k called => by rw [callless] at called; contradiction⟩

theorem addCast (calling : p.Calling Q e) (grounded : p.Grounded) (t : Ty) :
    (p.addCast t e).2.Grounded ∧ (p.addCast t e).2.Calling Q (p.addCast t e).1 :=
  addCallless grounded t (fun _ member => List.mem_singleton.1 member ▸ calling) rfl

theorem applied {left right : ExprId} (calling : p.Calling Q left) (calling' : p.Calling Q right)
    (grounded : p.Grounded) (use : Generator.OperatorUse) (t : Ty) :
    (p.applied use t left right).2.Grounded ∧
      (p.applied use t left right).2.Calling Q (p.applied use t left right).1 := by
  refine applied_induction (R := fun p e => p.Grounded ∧ p.Calling Q e) ?_ ?_
    ⟨grounded, calling⟩ ⟨grounded, calling'⟩ use t
  · rintro p t e ⟨grounded, calling⟩
    have new := calling.addCast grounded t
    exact ⟨new, fun o kept => ⟨new.1, kept.2.later grounded (extends_add ..)⟩⟩
  · rintro p op t l r ⟨grounded, first⟩ ⟨_, second⟩
    refine addCallless grounded t (fun o member => ?_) rfl
    rcases List.mem_cons.1 member with rfl | last
    · exact first
    · exact List.mem_singleton.1 last ▸ second

end Calling

theorem Recorded.calling (recorded : p.Recorded m? e) :
    p.Calling (fun k => ∃ m, m? = some m ∧ p.declared.calls.Calls m k) e :=
  ⟨recorded.inside, recorded.calls⟩

theorem Recorded.add (grounded : p.Grounded) {node : Node} (t : Ty)
    (operands : ∀ o ∈ node.operands, p.Recorded m? o)
    (own : ∀ k, node.callee? = some k → ∃ m, m? = some m ∧ p.declared.calls.Calls m k) :
    (p.add node t).2.Recorded m? (p.add node t).1 := by
  obtain ⟨inside, calls⟩ := Calling.add grounded t (fun o member => (operands o member).calling) own
  exact ⟨inside, calls⟩

theorem Grounded.of_arena (grounded : p.Grounded) (arena : p'.arena = p.arena) : p'.Grounded := by
  intro e o operand
  apply grounded e o
  unfold Operand Program.node at operand ⊢
  rwa [arena] at operand

theorem sameMethods_setInitialized (p : Program) (v : Var) :
    p.SameMethods { p with declared := p.declared.setInitialized v } := by
  cases v <;> exact ⟨p.extends_setInitialized _, rfl, rfl, rfl⟩

theorem sameMethods_recordCost (p : Program) (m : MethodId) (body : Block) :
    p.SameMethods (p.recordCost m body) :=
  ⟨p.extends_recordCost m body, rfl, Array.size_modify, rfl⟩

theorem sameMethods_addInitializedLocal (p : Program) (modifiers : Modifiers) (t : Ty) :
    p.SameMethods (p.addInitializedLocal modifiers t).2 :=
  ⟨p.extends_addInitializedLocal modifiers t, rfl, rfl, rfl⟩

theorem sameMethods_addParameters (p : Program) (params : List Ty) :
    p.SameMethods (p.addParameters params).2 := by
  induction params generalizing p with
  | nil => exact ⟨.refl p, rfl, rfl, rfl⟩
  | cons t rest ih =>
    obtain ⟨later, calls, size, methods⟩ := ih (p.addInitializedLocal .none t).2
    exact ⟨(p.extends_addInitializedLocal .none t).trans later, calls, size, methods⟩

theorem declared_applied (p : Program) (use : Generator.OperatorUse) (t : Ty)
    (left right : ExprId) :
    (p.applied use t left right).2.declared = p.declared ∧
      (p.applied use t left right).2.methods = p.methods ∧
      (p.applied use t left right).2.fields = p.fields :=
  applied_induction
    (R := fun q _ => q.declared = p.declared ∧ q.methods = p.methods ∧ q.fields = p.fields)
    (fun _ _ _ same => ⟨same, fun _ => id⟩) (fun _ _ _ _ _ same _ => same) ⟨rfl, rfl, rfl⟩
    ⟨rfl, rfl, rfl⟩ use t

theorem sameMethods_applied (p : Program) (use : Generator.OperatorUse) (t : Ty)
    (left right : ExprId) : p.SameMethods (p.applied use t left right).2 := by
  obtain ⟨declared, methods, _⟩ := p.declared_applied use t left right
  exact ⟨p.extends_applied use t left right, congrArg Declarations.calls declared,
    congrArg (·.methods.size) declared, methods⟩

theorem arena_addParameters (p : Program) (params : List Ty) :
    (p.addParameters params).2.arena = p.arena := by
  induction params generalizing p with
  | nil => rfl
  | cons t rest ih => exact ih (p.addInitializedLocal .none t).2

theorem fields_addParameters (p : Program) (params : List Ty) :
    (p.addParameters params).2.fields = p.fields := by
  induction params generalizing p with
  | nil => rfl
  | cons t rest ih => exact ih (p.addInitializedLocal .none t).2

structure Nested (p : Program) (m : MethodId) : Prop where
  ordered : p.Ordered
  writes : p.Writes m

namespace Nested

variable {p₀ : Program} {node : Node} {t : Ty}

theorem of_same (nested : p.Nested m) (same : p.SameMethods p') (arena : p'.arena = p.arena)
    (fields : ∀ f ∈ p'.fields.toList, f ∈ p.fields.toList ∨ p.Recorded none f.initializer) :
    p'.Nested m where
  ordered := nested.ordered.of_same same (nested.ordered.grounded.of_arena arena) fields
  writes := same.writes nested.writes

theorem add (nested : p.Nested m) (before : Proceeds m p₀ p)
    (operands : ∀ o ∈ node.operands, p.Recorded m? o)
    (own : ∀ k, node.callee? = some k → ∃ m, m? = some m ∧ p.declared.calls.Calls m k) :
    (p.add node t).2.Nested m ∧ Proceeds m p₀ (p.add node t).2 ∧
      (p.add node t).2.Recorded m? (p.add node t).1 := by
  have grounded := nested.ordered.grounded
  have same := p.sameMethods_add node t
  refine ⟨⟨?_, same.writes nested.writes⟩, before.trans (same.proceeds m), ?_⟩
  · exact nested.ordered.of_same same
      (grounded.add t fun o member => (operands o member).inside) fun _ => .inl
  · exact .add grounded t operands own

theorem addCallless (nested : p.Nested m) (before : Proceeds m p₀ p)
    (operands : ∀ o ∈ node.operands, p.Recorded m? o) (callless : node.callee? = none) :
    (p.add node t).2.Nested m ∧ Proceeds m p₀ (p.add node t).2 ∧
      (p.add node t).2.Recorded m? (p.add node t).1 :=
  nested.add before operands fun k called => by rw [callless] at called; contradiction

theorem setInitialized (nested : p.Nested m) (v : Var) :
    Program.Nested { p with declared := p.declared.setInitialized v } m :=
  nested.of_same (p.sameMethods_setInitialized v) rfl fun _ => .inl

theorem addAssignment (nested : p.Nested m) (before : Proceeds m p₀ p) (v : Var)
    (source : p.Recorded m? e) :
    (p.addAssignment v e).2.Nested m ∧ Proceeds m p₀ (p.addAssignment v e).2 ∧
      (p.addAssignment v e).2.Recorded m? (p.addAssignment v e).1 := by
  have same := p.sameMethods_setInitialized v
  refine (nested.setInitialized v).addCallless (before.trans (same.proceeds m))
    (fun o member => ?_) rfl
  rw [List.mem_singleton.1 member]
  exact source.later nested.ordered.grounded same.later

theorem addInitializedLocal (nested : p.Nested m) (before : Proceeds m p₀ p)
    (modifiers : Modifiers) (t : Ty) :
    (p.addInitializedLocal modifiers t).2.Nested m ∧
      Proceeds m p₀ (p.addInitializedLocal modifiers t).2 := by
  have same := p.sameMethods_addInitializedLocal modifiers t
  exact ⟨nested.of_same same rfl fun _ => .inl, before.trans (same.proceeds m)⟩

theorem addCounter (nested : p.Nested m) (before : Proceeds m p₀ p) :
    p.addCounter.2.Nested m ∧ Proceeds m p₀ p.addCounter.2 := by
  have same : p.SameMethods p.addCounter.2 := ⟨p.extends_addCounter, rfl, rfl, rfl⟩
  exact ⟨nested.of_same same rfl fun _ => .inl, before.trans (same.proceeds m)⟩

theorem addInitializedField (nested : p.Nested m) (before : Proceeds m p₀ p)
    (modifiers : Modifiers) (t : Ty) (initializer : p.Recorded none e) :
    (p.addInitializedField modifiers t e).Nested m ∧
      Proceeds m p₀ (p.addInitializedField modifiers t e) := by
  have same : p.SameMethods (p.addInitializedField modifiers t e) :=
    ⟨p.extends_addInitializedField modifiers t e, rfl, rfl, rfl⟩
  refine ⟨nested.of_same same rfl fun f member => ?_, before.trans (same.proceeds m)⟩
  rcases mem_toList_push member with old | rfl
  · exact .inl old
  · exact .inr initializer

theorem applied (nested : p.Nested m) (before : Proceeds m p₀ p) (use : Generator.OperatorUse)
    (t : Ty) {left right : ExprId} (recorded : p.Recorded m? left)
    (recorded' : p.Recorded m? right) :
    (p.applied use t left right).2.Nested m ∧ Proceeds m p₀ (p.applied use t left right).2 ∧
      (p.applied use t left right).2.Recorded m? (p.applied use t left right).1 := by
  have same := p.sameMethods_applied use t left right
  obtain ⟨declared, _, fields⟩ := p.declared_applied use t left right
  obtain ⟨grounded, inside, calls⟩ :=
    recorded.calling.applied recorded'.calling nested.ordered.grounded use t
  refine ⟨⟨?_, same.writes nested.writes⟩, before.trans (same.proceeds m), inside, ?_⟩
  · exact nested.ordered.of_same same grounded fun f member => .inl (fields ▸ member)
  · rw [declared]
    exact calls

end Nested

end Program
end JavaSmith
