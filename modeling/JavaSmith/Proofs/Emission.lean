import JavaSmith.Source
import JavaSmith.Proofs.Costs

/-! When a class cannot be written. Writing visits every expression that a field or a method evaluates,
the parts of each before the whole, and fails where it meets one without value. Nothing else can make
it fail, apart from an array creation whose type is no array type. -/
namespace JavaSmith

open Relation

/-- The computation fails exactly if the condition holds, and only in the one way. -/
structure FailsExactly {ε α : Type} (x : Except ε α) (fault : ε) (bad : Prop) : Prop where
  fails : bad → x = .error fault
  succeeds : ¬bad → ∃ a, x = .ok a

namespace FailsExactly

variable {ε α β : Type} {fault : ε} {bad bad' : Prop} {x : Except ε α} {f : α → Except ε β}

theorem ok (a : α) : FailsExactly (.ok a) fault False := ⟨False.elim, fun _ => ⟨a, rfl⟩⟩

theorem error : FailsExactly (.error fault : Except ε α) fault True :=
  ⟨fun _ => rfl, fun fine => absurd trivial fine⟩

theorem iff (h : FailsExactly x fault bad) (same : bad' ↔ bad) : FailsExactly x fault bad' :=
  ⟨fun holds => h.fails (same.1 holds), fun fine => h.succeeds fun holds => fine (same.2 holds)⟩

theorem bind (h : FailsExactly x fault bad) (h' : ∀ a, FailsExactly (f a) fault bad') :
    FailsExactly (x >>= f) fault (bad ∨ bad') := by
  by_cases first : bad
  · rw [h.fails first]
    exact ⟨fun _ => rfl, fun fine => absurd (.inl first) fine⟩
  · obtain ⟨a, made⟩ := h.succeeds first
    rw [made]
    exact (h' a).iff (or_iff_right first)

theorem map (h : FailsExactly x fault bad) {g : α → β} :
    FailsExactly (x >>= fun a => .ok (g a)) fault bad :=
  (h.bind fun a => ok (g a)).iff (by simp)

theorem mapM {γ : Type} {g : γ → Except ε β} {wrong : γ → Prop} {xs : List γ}
    (h : ∀ x ∈ xs, FailsExactly (g x) fault (wrong x)) :
    FailsExactly (xs.mapM g) fault (∃ x ∈ xs, wrong x) := by
  induction xs with
  | nil => exact (ok []).iff (by simp)
  | cons x rest ih =>
    obtain ⟨first, others⟩ := List.forall_mem_cons.1 h
    rw [List.mapM_cons]
    exact (first.bind fun _ => (ih others).map).iff (List.exists_mem_cons_iff ..)

end FailsExactly

theorem ok_of_bind {ε α β : Type} {x : Except ε α} {f : α → Except ε β} {b : β}
    (h : x >>= f = .ok b) : ∃ a, x = .ok a ∧ f a = .ok b := by
  cases x with
  | error fault => cases h
  | ok a => exact ⟨a, rfl, h⟩

theorem mapM_ok_iff {ε α β : Type} {f : α → Except ε β} {xs : List α} :
    (∃ ys, xs.mapM f = .ok ys) ↔ ∀ x ∈ xs, ∃ y, f x = .ok y := by
  induction xs with
  | nil => exact iff_of_true ⟨[], rfl⟩ fun x none => by contradiction
  | cons x rest ih =>
    rw [List.mapM_cons, List.forall_mem_cons, ← ih]
    cases f x with
    | error fault => exact iff_of_false (fun ⟨_, h⟩ => nomatch h) fun ⟨⟨_, h⟩, _⟩ => nomatch h
    | ok y =>
      cases rest.mapM f with
      | error fault => exact iff_of_false (fun ⟨_, h⟩ => nomatch h) fun ⟨_, _, h⟩ => nomatch h
      | ok ys => exact iff_of_true ⟨y :: ys, rfl⟩ ⟨⟨y, rfl⟩, ys, rfl⟩

theorem mapM_eq_error {ε α β : Type} {f : α → Except ε β} {before after : List α} {x : α}
    {fault : ε} (fine : ∀ y ∈ before, ∃ b, f y = .ok b) (failed : f x = .error fault) :
    (before ++ x :: after).mapM f = .error fault := by
  induction before with
  | nil =>
    rw [List.nil_append, List.mapM_cons, failed]
    rfl
  | cons y rest ih =>
    obtain ⟨⟨b, first⟩, others⟩ := List.forall_mem_cons.1 fine
    rw [List.cons_append, List.mapM_cons, first, ih others]
    rfl

section Trees

open JavaSmith.Tree

variable {operand : ExprId → Tree} {bad : ExprId → Prop}

theorem Tree.textAll_failsExactly {os : List ExprId}
    (h : ∀ o ∈ os, FailsExactly (operand o).text .noValue (bad o)) :
    FailsExactly (textAll (os.map operand)) .noValue (∃ o ∈ os, bad o) := by
  induction os with
  | nil => exact (FailsExactly.ok []).iff (by simp)
  | cons o rest ih =>
    obtain ⟨first, others⟩ := List.forall_mem_cons.1 h
    rw [List.map_cons, textAll]
    exact (first.bind fun _ => (ih others).map).iff (List.exists_mem_cons_iff ..)

/-- The text of a node fails if the node is one without value, or the text of an operand fails. -/
theorem Node.text_failsExactly {node : Node} (t : Ty)
    (operands : ∀ o ∈ node.operands, FailsExactly (operand o).text .noValue (bad o))
    (array : ∀ u sizes, node = .newArray u sizes → ∃ component n, u = .array component n) :
    FailsExactly (node.toTree t operand).text .noValue
      (node = .hole ∨ ∃ o ∈ node.operands, bad o) := by
  have parts := textAll_failsExactly operands
  cases node with
  | constant | read => exact (FailsExactly.ok _).iff (by simp [Node.operands])
  | call callee receiver args =>
    cases receiver with
    | none =>
      rw [Node.toTree, text]
      exact parts.map.iff (by simp)
    | some receiver =>
      obtain ⟨target, others⟩ := List.forall_mem_cons.1 operands
      rw [Node.toTree, text]
      exact (target.bind fun _ => (textAll_failsExactly others).map).iff (by simp [Node.operands])
  | construct u args =>
    rw [Node.toTree, text]
    exact parts.map.iff (by simp)
  | newArray u sizes =>
    obtain ⟨component, n, rfl⟩ := array u sizes rfl
    rw [Node.toTree, text]
    exact parts.map.iff (by simp)
  | cast u source | assign v source =>
    rw [Node.toTree, text]
    exact (operands source List.mem_cons_self).map.iff (by simp [Node.operands])
  | binary op left right =>
    have second := operands right (List.mem_cons_of_mem left List.mem_cons_self)
    rw [Node.toTree, text]
    exact ((operands left List.mem_cons_self).bind fun _ => second.map).iff (by simp [Node.operands])
  | hole => exact FailsExactly.error.iff (by simp)

end Trees

namespace Program

/-- An expression without value is part of the expression. -/
def ReachesHole (p : Program) (e : ExprId) : Prop := ∃ o, ReflTransGen p.Operand e o ∧ p.node o = .hole

def BlockReachesHole (p : Program) (b : Block) : Prop := ∃ e ∈ Block.roots b, p.ReachesHole e

def ArraysTyped (p : Program) : Prop :=
  ∀ e t sizes, p.node e = .newArray t sizes → ∃ component n, t = .array component n

variable {p : Program}

theorem reachesHole_iff {e : ExprId} :
    p.ReachesHole e ↔ p.node e = .hole ∨ ∃ o ∈ (p.node e).operands, p.ReachesHole o := by
  constructor
  · rintro ⟨o, path, hole⟩
    rcases path.cases_head with rfl | ⟨first, operand, rest⟩
    · exact .inl hole
    · exact .inr ⟨first, operand, o, rest, hole⟩
  · rintro (hole | ⟨first, operand, o, rest, hole⟩)
    · exact ⟨e, .refl, hole⟩
    · exact ⟨o, .head operand rest, hole⟩

abbrev FailsAtHoles (p : Program) : Prop :=
  ∀ e, FailsExactly (p.tree e).text .noValue (p.ReachesHole e)

theorem Grounded.failsAtHoles (grounded : p.Grounded) (arrays : p.ArraysTyped) :
    p.FailsAtHoles := by
  intro e
  induction e using Nat.strongRecOn with
  | ind e ih =>
    rw [tree_eq (grounded e)]
    refine (Node.text_failsExactly (p.typeOf e) (fun o operand => ih o (grounded e o operand))
      (arrays e)).iff reachesHole_iff

theorem treeText_failsExactly {t : Tree} {bad : Prop} (place : String)
    (h : FailsExactly t.text .noValue bad) :
    FailsExactly (p.treeText place t) (.emission p.className place) bad := by
  by_cases failed : bad
  · exact ⟨fun _ => by rw [treeText, h.fails failed]; rfl, fun fine => absurd failed fine⟩
  · obtain ⟨s, written⟩ := h.succeeds failed
    exact ⟨fun holds => absurd holds failed, fun _ => ⟨s, by rw [treeText, written]⟩⟩

/-- An assignment fails with its source, and so does the statement it is written as. -/
theorem text_source_failsExactly {v : Var} {source : Tree} {bad : Prop}
    (h : FailsExactly (Tree.assign v source).text .noValue bad) :
    FailsExactly source.text .noValue bad := by
  rw [Tree.text] at h
  -- the text of the assignment is made of that of its source and nothing else
  cases written : source.text with
  | ok s =>
    rw [written] at h
    refine ⟨fun failed => ?_, fun _ => ⟨s, rfl⟩⟩
    cases h.fails failed
  | error flaw =>
    rw [written] at h
    refine ⟨fun failed => ?_, fun fine => ?_⟩
    · cases h.fails failed
      rfl
    · obtain ⟨_, none⟩ := h.succeeds fine
      cases none

theorem expressionStatement_failsExactly {t : Tree} {bad : Prop} (place : String)
    (h : FailsExactly t.text .noValue bad) :
    FailsExactly (p.expressionStatement place t) (.emission p.className place) bad := by
  unfold expressionStatement
  split
  · exact (treeText_failsExactly place (text_source_failsExactly h)).map
  · exact (treeText_failsExactly place h).map

theorem not_blockReachesHole_nil (p : Program) : ¬p.BlockReachesHole [] :=
  fun ⟨_, within, _⟩ => nomatch within

theorem blockReachesHole_append (p : Program) (a b : Block) :
    p.BlockReachesHole (a ++ b) ↔ p.BlockReachesHole a ∨ p.BlockReachesHole b := by
  simp [BlockReachesHole, Block.roots_append, or_and_right, exists_or]

theorem blockReachesHole_singleton {s : Statement} {e : ExprId} (inner : Block)
    (visits : s.visit = s :: visitBlock inner) (own : s.roots = [e]) :
    p.BlockReachesHole [s] ↔ p.ReachesHole e ∨ p.BlockReachesHole inner := by
  unfold BlockReachesHole
  rw [Block.roots_singleton visits, own]
  exact List.exists_mem_cons_iff ..

theorem blockReachesHole_leaf {s : Statement} {e : ExprId} (visits : s.visit = s :: visitBlock [])
    (own : s.roots = [e]) : p.BlockReachesHole [s] ↔ p.ReachesHole e :=
  (blockReachesHole_singleton [] visits own).trans (or_iff_left p.not_blockReachesHole_nil)

namespace FailsAtHoles

theorem exprText (texts : p.FailsAtHoles) (place : String) (e : ExprId) :
    FailsExactly (p.exprText place e) (.emission p.className place) (p.ReachesHole e) :=
  treeText_failsExactly place (texts e)

mutual

theorem statementLines (texts : p.FailsAtHoles) (place : String) (level : Nat) : (s : Statement) →
    FailsExactly (p.statementLines place level s) (.emission p.className place)
      (p.BlockReachesHole [s])
  | .expression e => by
    rw [Program.statementLines]
    exact (expressionStatement_failsExactly place (texts e)).map.iff (blockReachesHole_leaf rfl rfl)
  | .declare l e | .print e | .returnValue e => by
    rw [Program.statementLines]
    exact (texts.exprText place e).map.iff (blockReachesHole_leaf rfl rfl)
  | .ifThen condition body => by
    have tested := texts.exprText place condition
    have nested := texts.blockLines place (level + 1) body
    rw [Program.statementLines]
    exact (tested.bind fun _ => nested.map).iff (blockReachesHole_singleton body rfl rfl)
  | .ifElse condition body otherwise => by
    have tested := texts.exprText place condition
    have nested := texts.blockLines place (level + 1) body
    have nested' := texts.blockLines place (level + 1) otherwise
    rw [Program.statementLines]
    refine (tested.bind fun _ => nested.bind fun _ => nested'.map).iff ?_
    rw [blockReachesHole_singleton _ (Statement.visit_ifElse ..) rfl, blockReachesHole_append]
  | .loop kind counter bound body => by
    have counted := texts.exprText place bound
    have nested := texts.blockLines place (level + 1) body
    rw [Program.statementLines]
    exact (counted.bind fun _ => nested.map).iff (blockReachesHole_singleton body rfl rfl)
  | .returnVoid => by
    rw [Program.statementLines]
    exact (FailsExactly.ok _).iff (iff_of_false p.not_blockReachesHole_nil id)

theorem blockLines (texts : p.FailsAtHoles) (place : String) (level : Nat) : (b : Block) →
    FailsExactly (p.blockLines place level b) (.emission p.className place) (p.BlockReachesHole b)
  | [] => (FailsExactly.ok []).iff (iff_of_false p.not_blockReachesHole_nil id)
  | s :: rest => by
    have first := texts.statementLines place level s
    have others := texts.blockLines place level rest
    rw [Program.blockLines]
    exact (first.bind fun _ => others.map).iff (blockReachesHole_append p [s] rest)

end

theorem fieldLine (texts : p.FailsAtHoles) (f : FieldDeclaration) :
    FailsExactly (p.fieldLine f) (.emission p.className fieldsPlace) (p.ReachesHole f.initializer) :=
  (texts.exprText fieldsPlace f.initializer).map

theorem fieldLines (texts : p.FailsAtHoles) :
    FailsExactly (p.fields.toList.mapM p.fieldLine) (.emission p.className fieldsPlace)
      (∃ f ∈ p.fields.toList, p.ReachesHole f.initializer) :=
  .mapM fun f _ => texts.fieldLine f

theorem methodLines (texts : p.FailsAtHoles) (m : MethodDeclaration) :
    FailsExactly (p.methodLines m) (.emission p.className (p.declared.method m.method).name)
      (p.BlockReachesHole m.body) :=
  (texts.blockLines _ 2 m.body).map

variable (texts : p.FailsAtHoles)

include texts

theorem source_eq_of_field (failed : ∃ f ∈ p.fields.toList, p.ReachesHole f.initializer) :
    p.source = .error (.emission p.className fieldsPlace) := by
  rw [source, texts.fieldLines.fails failed]
  rfl

theorem source_eq_of_method (fields : ∀ f ∈ p.fields.toList, ¬p.ReachesHole f.initializer)
    {before after : List MethodDeclaration} {m : MethodDeclaration}
    (split : p.methodsInOrder = before ++ m :: after)
    (fine : ∀ k ∈ before, ¬p.BlockReachesHole k.body) (failed : p.BlockReachesHole m.body) :
    p.source = .error (.emission p.className (p.declared.method m.method).name) := by
  obtain ⟨lines, written⟩ := texts.fieldLines.succeeds fun ⟨f, member, hole⟩ => fields f member hole
  have earlier (k : MethodDeclaration) (member : k ∈ before) :=
    (texts.methodLines k).succeeds (fine k member)
  have first := (texts.methodLines m).fails failed
  rw [source, written, split, mapM_eq_error earlier first]
  rfl

/-- A class can be written exactly if it has no holes. -/
theorem source_ok_iff :
    (∃ text, p.source = .ok text) ↔ (∀ f ∈ p.fields.toList, ¬p.ReachesHole f.initializer) ∧
      ∀ m ∈ p.methodsInOrder, ¬p.BlockReachesHole m.body := by
  constructor
  · rintro ⟨text, written⟩
    unfold source at written
    obtain ⟨lines, fields, written⟩ := ok_of_bind written
    obtain ⟨lines', methods, _⟩ := ok_of_bind written
    refine ⟨fun f member hole => ?_, fun m member hole => ?_⟩
    · obtain ⟨line, fine⟩ := mapM_ok_iff.1 ⟨lines, fields⟩ f member
      exact nomatch ((texts.fieldLine f).fails hole).symm.trans fine
    · obtain ⟨line, fine⟩ := mapM_ok_iff.1 ⟨lines', methods⟩ m member
      exact nomatch ((texts.methodLines m).fails hole).symm.trans fine
  · rintro ⟨fields, methods⟩
    obtain ⟨lines, written⟩ := texts.fieldLines.succeeds fun ⟨f, member, hole⟩ => fields f member hole
    obtain ⟨lines', written'⟩ := mapM_ok_iff.2 fun m member =>
      (texts.methodLines m).succeeds (methods m member)
    rw [source, written, written']
    exact ⟨_, rfl⟩

end FailsAtHoles

end Program

end JavaSmith
