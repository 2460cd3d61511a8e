import JavaSmith.Proofs.Changes
import JavaSmith.Proofs.Costs
import JavaSmith.Proofs.Scoping

/-! What holds of the arena however the checked steps are used. Each step looks at its operands before it
changes anything, so a step that is refused leaves no trace, and what it promised of a node on adding
it stays true: later steps add behind the node and take nothing back. -/
namespace JavaSmith

namespace Gen

/-- The step that adds the node. Constants, operators and calls are given a type; any other node has
its own. -/
def make (node : Node) (t : Ty) : Gen ExprId :=
  match node with
  | .constant v => constant v t
  | .read v => read v
  | .call callee receiver args => call callee receiver args t
  | .construct u args => construct u args
  | .newArray u sizes => newArray u sizes
  | .cast u operand => cast u operand
  | .binary op left right => binary op t left right
  | .assign v source => assign v source
  | .hole => hole

def change : Change → Gen Unit
  | .field modifiers t => declaring (·.addField modifiers t)
  | .localVar modifiers t => declaring (·.addLocal modifiers t)
  | .counter => declaring (·.addCounter)
  | .method modifiers params returns => declaring (·.addMethod modifiers params returns)
  | .entry => declaring (·.addEntry)
  | .initialized v => declaring (·.setInitialized v)
  | .cost m cost => declaring (·.setCost m cost)
  | .call caller callee => addCallEdge caller callee

theorem change_eq (c : Change) (s : Draft) :
    change c s = match s.program.declared.change c with
      | .error b => .error (.breach b) s
      | .ok declared => .ok () { s with program.declared := declared } := by
  cases c <;> rfl

end Gen

/-- One step on a class under construction: a node, a change of what is declared, or a part of the class
that refers to both. -/
inductive Edit where
  | make (node : Node) (t : Ty)
  | change (c : Change)
  | field (f : FieldDeclaration)
  | method (m : MethodDeclaration)
  | entryBody (b : Block)

/-- The number of the new node, for a step that adds one. -/
def Edit.perform : Edit → Gen (Option ExprId)
  | make node t => do
    let e ← Gen.make node t
    return some e
  | change c => do
    Gen.change c
    return none
  | field f => Gen.step fun p => (none, { p with fields := p.fields.push f })
  | method m => do
    Gen.completeMethod m
    return none
  | entryBody b => Gen.step fun p => (none, { p with entry.body := b })

namespace Program

/-- The numbers in the edit are of expressions, variables and methods of the class. -/
def Knows (p : Program) : Edit → Prop
  | .make node _ =>
    (∀ o ∈ node.operands, o < p.exprCount) ∧
    (∀ v, node.var? = some v → p.declared.Declares v) ∧
    (∀ m, node.callee? = some m → m < p.declared.methods.size)
  | .change c => p.declared.Knows c
  | _ => True

end Program

def Draft.after (s : Draft) (edit : Edit) : Draft :=
  match edit.perform s with
  | .ok _ s' => s'
  | .error _ s' => s'

inductive Draft.Leads : Draft → Draft → Prop where
  | refl (s : Draft) : Leads s s
  | edit {s s' : Draft} {edit : Edit} :
    Leads s s' → s'.program.Knows edit → Leads s (s'.after edit)

namespace Program

/-- The type a node gets: the one asked for, if it has none of its own. -/
def typeFor (p : Program) (asked : Ty) : Node → Ty
  | .constant _ | .call _ _ _ | .binary _ _ _ => asked
  | .read v | .assign v _ => p.declared.typeOf v
  | .construct t _ | .newArray t _ | .cast t _ => t
  | .hole => .void

def refusal? (p : Program) (asked : Ty) : Node → Option Breach
  | .constant v => constantRefusal? v asked
  | .newArray t sizes => p.arrayRefusal? t sizes
  | .assign v _ => p.assignmentRefusal? v
  | _ => none

/-- An assigned variable holds a value. -/
def assigning (p : Program) : Node → Program
  | .assign v _ => { p with declared := p.declared.setInitialized v }
  | _ => p

/-- What is promised of a node of the type: a constant is one of its values, an array has a valid size
for each of its dimensions, and a variable that is assigned may be written. -/
def Promises (p : Program) (t : Ty) : Node → Prop
  | .constant v => v.fits t = true
  | .newArray _ sizes =>
    sizes.length = t.dimensions ∧ sizes ≠ [] ∧
      ∀ o ∈ sizes, p.indexType.accepts (p.typeOf o) = true
  | .assign v _ => p.declared.isReadOnly v = false
  | _ => True

variable {p p' : Program} {node : Node} {t : Ty}

theorem Promises.later (promised : p.Promises t node) (h : p.Extends p')
    (operands : ∀ o ∈ node.operands, o < p.exprCount)
    (var : ∀ v, node.var? = some v → p.declared.Declares v) : p'.Promises t node := by
  cases node with
  | newArray u sizes =>
    obtain ⟨count, inhabited, valid⟩ := promised
    refine ⟨count, inhabited, fun o member => ?_⟩
    rw [h.indexType, h.typeOf (operands o member)]
    exact valid o member
  | assign v source => exact (h.isReadOnly (var v rfl)).trans promised
  | _ => exact promised

theorem refusal?_eq_none_iff : p.refusal? t node = none ↔ p.Promises (p.typeFor t node) node := by
  cases node with
  | constant v =>
    change constantRefusal? v t = none ↔ v.fits t = true
    unfold constantRefusal?
    split <;> simp [*]
  | newArray u sizes => exact arrayRefusal?_eq_none_iff
  | assign v source => exact assignmentRefusal?_eq_none_iff
  | _ => exact iff_of_true rfl trivial

theorem retains_assigning (p : Program) (node : Node) : p.Retains (p.assigning node) := by
  cases node with
  | assign v source => exact retains_change (c := .initialized v) rfl
  | _ => exact .refl p

theorem arena_assigning (p : Program) (node : Node) : (p.assigning node).arena = p.arena := by
  cases node <;> rfl

theorem isInitialized_assigning {v : Var} {source : ExprId} (declared : p.declared.Declares v) :
    (p.assigning (.assign v source)).declared.isInitialized v = true :=
  Declarations.isInitialized_setInitialized_self declared

/-- What holds of the arena of a class. -/
structure WellBuilt (p : Program) : Prop where
  grounded : p.Grounded
  vars : ∀ e v, (p.node e).var? = some v → p.declared.Declares v
  promised : ∀ e < p.exprCount, p.Promises (p.typeOf e) (p.node e)
  assigned : ∀ e v source, p.node e = .assign v source → p.declared.isInitialized v = true

namespace WellBuilt

theorem new (className : String) (seed : UInt64) (knobs : Knobs) :
    (Program.new className seed knobs).WellBuilt where
  grounded e o operand := by contradiction
  vars e v used := by contradiction
  promised e inside := absurd inside (Nat.not_lt_zero e)
  assigned e v source node := by contradiction

theorem of_arena (built : p.WellBuilt) (h : p.Retains p') (arena : p'.arena = p.arena) :
    p'.WellBuilt := by
  have node (e : ExprId) : p'.node e = p.node e := by
    unfold Program.node
    rw [arena]
  have typeOf (e : ExprId) : p'.typeOf e = p.typeOf e := by
    unfold Program.typeOf
    rw [arena]
  have declares (e : ExprId) (v : Var) (used : (p.node e).var? = some v) := built.vars e v used
  refine ⟨built.grounded.of_arena arena, ?_, ?_, ?_⟩
  · intro e v used
    rw [node] at used
    exact h.later.declares (declares e v used)
  · intro e inside
    have inside' : e < p.exprCount := by
      unfold exprCount at *
      rwa [← arena]
    rw [node, typeOf]
    exact (built.promised e inside').later h.later
      (fun o operand => Nat.lt_trans (built.grounded e o operand) inside') (declares e)
  · intro e v source assigned
    rw [node] at assigned
    have used : (p.node e).var? = some v := by rw [assigned]; rfl
    exact h.initialized v (declares e v used) (built.assigned e v source assigned)

theorem add (built : p.WellBuilt) (operands : ∀ o ∈ node.operands, o < p.exprCount)
    (var : ∀ v, node.var? = some v → p.declared.Declares v) (promised : p.Promises t node)
    (assigned : ∀ v source, node = .assign v source → p.declared.isInitialized v = true) :
    (p.add node t).2.WellBuilt := by
  have h := p.extends_add node t
  refine ⟨built.grounded.add t operands, ?_, ?_, ?_⟩
  · intro e v used
    rcases p.node_add_cases node t e with ⟨_, new⟩ | old
    · exact var v (new ▸ used)
    · exact built.vars e v (old ▸ used)
  · intro e inside
    -- the promises of older nodes speak of what was there before, the new node's of its operands
    have last : e < p.arena.size + 1 := p.size_add node t ▸ inside
    rcases Nat.lt_or_eq_of_le (Nat.le_of_lt_succ last) with old | rfl
    · rw [h.node old, h.typeOf old]
      exact (built.promised e old).later h
        (fun o operand => Nat.lt_trans (built.grounded e o operand) old) (built.vars e)
    · rw [node_add, typeOf_add]
      exact promised.later h operands var
  · intro e v source node'
    rcases p.node_add_cases node t e with ⟨_, new⟩ | old
    · exact assigned v source (new.symm.trans node')
    · exact built.assigned e v source (old.symm.trans node')

end WellBuilt
end Program

theorem Gen.make_eq (node : Node) (t : Ty) (s : Draft) :
    Gen.make node t s = match s.program.refusal? t node with
      | some breach => .error (.breach breach) s
      | none => .ok s.program.exprCount { s with
          program := ((s.program.assigning node).add node (s.program.typeFor t node)).2 } := by
  cases node <;> rfl

theorem Edit.perform_make (node : Node) (t : Ty) (s : Draft) :
    (¬s.program.Promises (s.program.typeFor t node) node ∧
      ∃ fault, (make node t).perform s = .error fault s) ∨
    (s.program.Promises (s.program.typeFor t node) node ∧
      (make node t).perform s = .ok (some s.program.exprCount) { s with
        program := ((s.program.assigning node).add node (s.program.typeFor t node)).2 }) := by
  rw [← Program.refusal?_eq_none_iff]
  unfold perform
  dsimp only [bind, EStateM.bind]
  rw [Gen.make_eq]
  cases s.program.refusal? t node with
  | none => exact .inr ⟨rfl, rfl⟩
  | some breach => exact .inl ⟨Option.some_ne_none breach, _, rfl⟩

/-- An edit is refused and nothing happens, or adds a node, or leaves all nodes as they are. -/
theorem Edit.perform_cases (edit : Edit) (s : Draft) :
    (∃ fault, edit.perform s = .error fault s) ∨
    (∃ node t, edit = .make node t ∧ s.program.Promises (s.program.typeFor t node) node ∧
      edit.perform s = .ok (some s.program.exprCount) { s with
        program := ((s.program.assigning node).add node (s.program.typeFor t node)).2 }) ∨
    ∃ p', edit.perform s = .ok none { s with program := p' } ∧ s.program.Retains p' ∧
      p'.arena = s.program.arena := by
  obtain ⟨p, stream⟩ := s
  cases edit with
  | make node t =>
    rcases perform_make node t ⟨p, stream⟩ with ⟨_, refused⟩ | ⟨promised, added⟩
    · exact .inl refused
    · exact .inr (.inl ⟨node, t, rfl, promised, added⟩)
  | change c =>
    unfold perform
    dsimp only [bind, EStateM.bind]
    rw [Gen.change_eq]
    cases changed : p.declared.change c with
    | ok d => exact .inr (.inr ⟨_, rfl, Program.retains_change changed, rfl⟩)
    | error breach => exact .inl ⟨_, rfl⟩
  | field f =>
    have later : p.Extends { p with fields := p.fields.push f } :=
      { Program.Extends.refl p with fields := by simp }
    exact .inr (.inr ⟨_, rfl, ⟨later, fun _ _ initialized => initialized⟩, rfl⟩)
  | method m =>
    exact .inr (.inr ⟨_, rfl, ⟨p.extends_addBody m, fun _ _ initialized => initialized⟩, rfl⟩)
  | entryBody b =>
    have later : p.Extends { p with entry.body := b } := { Program.Extends.refl p with }
    exact .inr (.inr ⟨_, rfl, ⟨later, fun _ _ initialized => initialized⟩, rfl⟩)

namespace Draft

variable {s s' : Draft} {edit : Edit}

theorem after_of_ok {e : Option ExprId} (performed : edit.perform s = .ok e s') :
    s.after edit = s' := by
  unfold after
  rw [performed]

theorem retains_after (s : Draft) (edit : Edit) : s.program.Retains (s.after edit).program := by
  rcases edit.perform_cases s with ⟨fault, refused⟩ | ⟨node, t, _, _, performed⟩ |
    ⟨p', performed, retains, _⟩
  · unfold after
    rw [refused]
    exact .refl s.program
  · rw [after_of_ok performed]
    exact (s.program.retains_assigning node).trans
      ⟨Program.extends_add .., fun _ _ initialized => initialized⟩
  · rw [after_of_ok performed]
    exact retains

theorem eq_of_refused {fault : Fault} (refused : edit.perform s = .error fault s') : s' = s := by
  rcases edit.perform_cases s with ⟨fault', outcome⟩ | ⟨_, _, _, _, outcome⟩ | ⟨_, outcome, _⟩
  · rw [outcome] at refused
    cases refused
    rfl
  all_goals
    rw [outcome] at refused
    contradiction

theorem wellBuilt_after (built : s.program.WellBuilt) (known : s.program.Knows edit) :
    (s.after edit).program.WellBuilt := by
  rcases edit.perform_cases s with ⟨fault, refused⟩ | ⟨node, t, rfl, promised, performed⟩ |
    ⟨p', performed, retains, arena⟩
  · unfold after
    rw [refused]
    exact built
  · obtain ⟨operands, var, _⟩ := known
    have retains := s.program.retains_assigning node
    have same := s.program.arena_assigning node
    have count : (s.program.assigning node).exprCount = s.program.exprCount :=
      congrArg Array.size same
    rw [after_of_ok performed]
    -- an assigned variable is given its value before the node is added
    refine (built.of_arena retains same).add (count ▸ operands) ?_
      (promised.later retains.later operands var) ?_
    · exact fun v used => retains.later.declares (var v used)
    · rintro v source rfl
      exact Program.isInitialized_assigning (var v rfl)
  · rw [after_of_ok performed]
    exact built.of_arena retains arena

theorem Leads.retains (leads : s.Leads s') : s.program.Retains s'.program := by
  induction leads with
  | refl => exact .refl _
  | edit _ _ ih => exact ih.trans (retains_after ..)

theorem Leads.wellBuilt (leads : s.Leads s') (built : s.program.WellBuilt) :
    s'.program.WellBuilt := by
  induction leads with
  | refl => exact built
  | edit _ known ih => exact wellBuilt_after ih known

end Draft

theorem Program.Grounded.acc {p : Program} (grounded : p.Grounded) (e : ExprId) :
    Acc (fun o e => p.Operand e o) e :=
  Subrelation.accessible (r := (· < ·)) (fun operand => grounded _ _ operand) (Nat.lt_wfRel.wf.apply e)

/-- Whatever edits make of a new class, with numbers of expressions, variables and methods that are
there: operands come before what they are part of, so that reading an expression off the arena ends;
constants fit their types; arrays have a valid size for each dimension and at least one; what is
assigned may be written and holds a value. Further edits change no node and no type and take no value
from a variable. An edit that is refused changes nothing. A node is refused if what is promised of it
fails, and otherwise gets the next number. -/
theorem arena_kept_by_edits {className : String} {seed : UInt64} {knobs : Knobs}
    {stream : Random.Stream} {s : Draft} (made : Draft.Leads ⟨.new className seed knobs, stream⟩ s) :
    let p := s.program
    (∀ e < p.exprCount,
      (∀ o ∈ (p.node e).operands, o < e) ∧
      Acc (fun o e => o ∈ (p.node e).operands) e ∧
      p.tree e = (p.node e).toTree (p.typeOf e) p.tree ∧
      (∀ v, p.node e = .constant v → v.fits (p.typeOf e) = true) ∧
      (∀ t sizes, p.node e = .newArray t sizes →
        sizes.length = (p.typeOf e).dimensions ∧ sizes ≠ [] ∧
          ∀ o ∈ sizes, p.indexType.accepts (p.typeOf o) = true) ∧
      (∀ v source, p.node e = .assign v source →
        p.declared.isReadOnly v = false ∧ p.declared.isInitialized v = true)) ∧
    (∀ s', s.Leads s' →
      (∀ e < p.exprCount, s'.program.node e = p.node e ∧ s'.program.typeOf e = p.typeOf e) ∧
      (∀ v, p.declared.Declares v → p.declared.isInitialized v = true →
        s'.program.declared.isInitialized v = true)) ∧
    (∀ edit fault s', Edit.perform edit s = .error fault s' → s' = s) ∧
    (∀ node t,
      (¬p.Promises (p.typeFor t node) node ∧
        ∃ fault, (Edit.make node t).perform s = .error fault s) ∨
      (p.Promises (p.typeFor t node) node ∧
        ∃ s', (Edit.make node t).perform s = .ok (some p.exprCount) s' ∧
          s'.program.exprCount = p.exprCount + 1 ∧ s'.program.node p.exprCount = node ∧
          s'.program.typeOf p.exprCount = p.typeFor t node)) := by
  intro p
  have built := made.wellBuilt (.new className seed knobs)
  refine ⟨fun e inside => ?_, fun s' leads => ?_, fun edit fault s' => Draft.eq_of_refused,
    fun node t => ?_⟩
  · have before : ∀ o ∈ (p.node e).operands, o < e := fun o => built.grounded e o
    have promised := built.promised e inside
    refine ⟨before, built.grounded.acc e, p.tree_eq before, fun v node => ?_, fun t sizes node => ?_,
      fun v source node => ⟨?_, built.assigned e v source node⟩⟩
    all_goals rwa [node] at promised
  · have retains := leads.retains
    exact ⟨fun e inside => ⟨retains.later.node inside, retains.later.typeOf inside⟩,
      retains.initialized⟩
  · refine (Edit.perform_make node t s).imp id fun ⟨promised, added⟩ => ⟨promised, _, added, ?_⟩
    unfold Program.exprCount
    rw [← p.arena_assigning node]
    exact ⟨Program.size_add .., Program.node_add .., Program.typeOf_add ..⟩

/-- A local is declared, and a constant made and assigned to it. -/
theorem assigned_after_three_edits :
    let start : Draft := ⟨.new "T" 0 .default, default⟩
    let s := ((start.after (.change (.localVar .none (.primitive .int)))).after
      (.make (.constant (.int 7)) (.primitive .int))).after (.make (.assign (.localVar 0) 0) .void)
    start.Leads s ∧ s.program.exprCount = 2 ∧ s.program.node 1 = .assign (.localVar 0) 0 ∧
      s.program.declared.isInitialized (.localVar 0) = true := by
  intro start s
  have leads : start.Leads s := by
    refine .edit (.edit (.edit (.refl start) trivial) ⟨?_, ?_, ?_⟩) ⟨?_, ?_, ?_⟩
    · exact fun o operand => by contradiction
    · exact fun v used => by contradiction
    · exact fun m called => by contradiction
    · exact fun o operand => List.mem_singleton.1 operand ▸ Nat.zero_lt_one
    · exact fun v used => Option.some.inj used ▸ Nat.zero_lt_one
    · exact fun m called => by contradiction
  have second := (arena_kept_by_edits leads).1 1 Nat.one_lt_two
  exact ⟨leads, rfl, rfl, (second.2.2.2.2.2 (.localVar 0) 0 rfl).2⟩

end JavaSmith
