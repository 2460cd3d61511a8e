import Mathlib.Data.Set.Card
import JavaSmith.Proofs.Costs
import JavaSmith.Proofs.Uses

/-! Expressions as a forest. Where no expression is used twice, what two expressions have in common is all
of one of them, so the trees that statements and fields stand for are disjoint, every node is
written once, and counting the nodes of trees counts nodes of the class. -/
namespace JavaSmith

open Relation Program

namespace Tree

mutual

def subtrees : Tree → List Tree
  | constant v t => [constant v t]
  | read v => [read v]
  | call callee args => call callee args :: subtreesAll args
  | send receiver callee args => send receiver callee args :: (receiver.subtrees ++ subtreesAll args)
  | construct t args => construct t args :: subtreesAll args
  | newArray t sizes => newArray t sizes :: subtreesAll sizes
  | cast t operand => cast t operand :: operand.subtrees
  | binary op left right => binary op left right :: (left.subtrees ++ right.subtrees)
  | assign v source => assign v source :: source.subtrees
  | hole => [hole]

def subtreesAll : List Tree → List Tree
  | [] => []
  | t :: rest => t.subtrees ++ subtreesAll rest

end

theorem subtreesAll_eq (ts : List Tree) : subtreesAll ts = ts.flatMap subtrees := by
  induction ts with
  | nil => rfl
  | cons t rest ih => rw [subtreesAll, ih, List.flatMap_cons]

theorem subtrees_toTree (node : Node) (t : Ty) (operand : ExprId → Tree) :
    (node.toTree t operand).subtrees =
      node.toTree t operand :: node.operands.flatMap fun o => (operand o).subtrees := by
  cases node with
  | constant | read | hole => rfl
  | call callee receiver args =>
    cases receiver with
    | none =>
      rw [Node.toTree, subtrees, subtreesAll_eq, List.flatMap_map]
      rfl
    | some receiver =>
      rw [Node.toTree, subtrees, subtreesAll_eq, List.flatMap_map]
      rfl
  | construct _ args | newArray _ args =>
    rw [Node.toTree, subtrees, subtreesAll_eq, List.flatMap_map]
    rfl
  | cast _ operand | assign _ operand =>
    rw [Node.toTree, subtrees]
    exact congrArg _ (List.append_nil _).symm
  | binary _ left right =>
    rw [Node.toTree, subtrees]
    exact congrArg (_ :: _ ++ ·) (List.append_nil _).symm

end Tree

namespace Program

def occurrences (p : Program) (e : ExprId) : List ExprId :=
  e :: (p.node e).operands.flatMap fun o => if _h : o < e then p.occurrences o else []
termination_by e

def written (p : Program) : List ExprId := p.roots.flatMap p.occurrences

def Reachable (p : Program) (e : ExprId) : Prop := ∃ r ∈ p.roots, ReflTransGen p.Operand r e

variable {p : Program}

section Grounded

variable (grounded : p.Grounded)

include grounded

theorem occurrences_eq (e : ExprId) :
    p.occurrences e = e :: (p.node e).operands.flatMap p.occurrences := by
  rw [occurrences]
  refine congrArg _ (List.flatMap_congr fun o operand => ?_)
  exact dif_pos (grounded e o operand)

theorem mem_occurrences {e o : ExprId} :
    o ∈ p.occurrences e ↔ ReflTransGen p.Operand e o := by
  induction e using Nat.strongRecOn with
  | ind e ih =>
    rw [occurrences_eq grounded, List.mem_cons, List.mem_flatMap, ReflTransGen.cases_head_iff, eq_comm]
    refine or_congr_right (exists_congr fun first => and_congr_right fun operand => ?_)
    exact ih first (grounded e first operand)

theorem subtrees_tree (e : ExprId) : (p.tree e).subtrees = (p.occurrences e).map p.tree := by
  induction e using Nat.strongRecOn with
  | ind e ih =>
    rw [occurrences_eq grounded, List.map_cons, List.map_flatMap, tree_eq (grounded e),
      Tree.subtrees_toTree]
    exact congrArg _ (List.flatMap_congr fun o operand => ih o (grounded e o operand))

theorem length_occurrences (e : ExprId) : (p.occurrences e).length = (p.tree e).nodeCount := by
  induction e using Nat.strongRecOn with
  | ind e ih =>
    rw [occurrences_eq grounded, nodeCount_eq (grounded e), List.length_cons, List.length_flatMap,
      Nat.add_comm]
    refine congrArg (1 + List.sum ·) (List.map_congr_left fun o operand => ?_)
    exact ih o (grounded e o operand)

theorem expressionNodes_eq : p.stats.expressionNodes = p.written.length := by
  rw [written, List.length_flatMap]
  simp only [length_occurrences grounded]
  rw [stats, Tree.nodeCountAll_eq, List.map_map]
  rfl

theorem subtrees_roots : (p.roots.map p.tree).flatMap Tree.subtrees = p.written.map p.tree := by
  rw [List.flatMap_map, written, List.map_flatMap]
  exact List.flatMap_congr fun r _ => subtrees_tree grounded r

theorem mem_written {e : ExprId} : e ∈ p.written ↔ p.Reachable e := by
  rw [written, List.mem_flatMap]
  exact exists_congr fun r => and_congr_right fun _ => mem_occurrences grounded

end Grounded

theorem Grounded.le_of_reaches (grounded : p.Grounded) {e o : ExprId}
    (path : ReflTransGen p.Operand e o) : o ≤ e := by
  induction path with
  | refl => exact Nat.le_refl e
  | tail _ operand ih => exact (Nat.le_of_lt (grounded _ _ operand)).trans ih

theorem Operand.exists_mem {e o : ExprId} (operand : p.Operand e o) :
    ∃ inside : e < p.arena.size, o ∈ p.arena[e].node.operands := by
  have inside := operand.inside
  unfold Operand node at operand
  rw [Array.getElem?_eq_getElem inside] at operand
  exact ⟨inside, operand⟩

section Unshared

variable (once : p.uses.Nodup)

include once

theorem operand_unique {a b e : ExprId} (h : p.Operand a e) (h' : p.Operand b e) : a = b := by
  obtain ⟨inside, member⟩ := h.exists_mem
  obtain ⟨inside', member'⟩ := h'.exists_mem
  have apart := List.pairwise_iff_getElem.1 (List.nodup_flatMap.1 once.of_append_left).2
  rcases Nat.lt_trichotomy a b with less | same | more
  · exact absurd member' (apart a b inside inside' less member)
  · exact same
  · exact absurd member (apart b a inside' inside more member')

theorem nodup_operands (e : ExprId) : (p.node e).operands.Nodup := by
  by_cases inside : e < p.arena.size
  · rw [node, Array.getElem?_eq_getElem inside]
    exact (List.nodup_flatMap.1 once.of_append_left).1 _ (Array.getElem_mem_toList inside)
  · rw [node_of_le (Nat.le_of_not_lt inside)]
    exact List.nodup_nil

theorem not_operand_of_root {a r : ExprId} (root : r ∈ p.roots) : ¬p.Operand a r := by
  intro operand
  obtain ⟨inside, member⟩ := operand.exists_mem
  exact List.disjoint_of_nodup_append once
    (List.mem_flatMap.2 ⟨_, Array.getElem_mem_toList inside, member⟩) root

/-- What two expressions have in common is one of them. -/
theorem reaches_or_reaches {a b e : ExprId} (h : ReflTransGen p.Operand a e)
    (h' : ReflTransGen p.Operand b e) :
    ReflTransGen p.Operand a b ∨ ReflTransGen p.Operand b a := by
  -- upwards from `e` there is one way to go
  have unique : Relator.RightUnique (Function.swap p.Operand) :=
    fun _ _ _ first second => operand_unique once first second
  rcases ReflTransGen.total_of_right_unique unique h.swap h'.swap with path | path
  · exact .inr path.swap
  · exact .inl path.swap

theorem eq_of_reaches_root {a r : ExprId} (path : ReflTransGen p.Operand a r) (root : r ∈ p.roots) :
    a = r := by
  rcases path.cases_tail with same | ⟨o, _, last⟩
  · exact same.symm
  · exact absurd last (not_operand_of_root once root)

theorem root_unique {r r' e : ExprId} (root : r ∈ p.roots) (root' : r' ∈ p.roots)
    (path : ReflTransGen p.Operand r e) (path' : ReflTransGen p.Operand r' e) : r = r' := by
  rcases reaches_or_reaches once path path' with first | second
  · exact eq_of_reaches_root once first root'
  · exact (eq_of_reaches_root once second root).symm

theorem existsUnique_root {e : ExprId} (reachable : p.Reachable e) :
    ∃! r, r ∈ p.roots ∧ ReflTransGen p.Operand r e := by
  obtain ⟨r, root, path⟩ := reachable
  exact ⟨r, ⟨root, path⟩, fun r' ⟨root', path'⟩ => root_unique once root' root path' path⟩

variable (grounded : p.Grounded)

include grounded

theorem eq_of_operand_reaches {e a b : ExprId} (first : p.Operand e a) (second : p.Operand e b)
    (path : ReflTransGen p.Operand a b) : a = b := by
  rcases path.cases_tail with same | ⟨o, before, last⟩
  · exact same.symm
  · -- the last step to `b` is from `e`, which is newer than `a`
    have above := grounded.le_of_reaches (operand_unique once last second ▸ before)
    exact absurd (grounded e a first) (Nat.not_lt_of_le above)

theorem eq_of_common_part {e a b o : ExprId} (first : p.Operand e a) (second : p.Operand e b)
    (path : ReflTransGen p.Operand a o) (path' : ReflTransGen p.Operand b o) : a = b := by
  rcases reaches_or_reaches once path path' with below | above
  · exact eq_of_operand_reaches once grounded first second below
  · exact (eq_of_operand_reaches once grounded second first above).symm

theorem nodup_occurrences (e : ExprId) : (p.occurrences e).Nodup := by
  induction e using Nat.strongRecOn with
  | ind e ih =>
    rw [occurrences_eq grounded, List.nodup_cons, List.nodup_flatMap]
    refine ⟨fun member => ?_, fun o operand => ih o (grounded e o operand), ?_⟩
    · obtain ⟨o, operand, part⟩ := List.mem_flatMap.1 member
      have above := grounded.le_of_reaches ((mem_occurrences grounded).1 part)
      exact absurd (grounded e o operand) (Nat.not_lt_of_le above)
    · refine (nodup_operands once e).pairwise_of_forall_ne fun a first b second apart => ?_
      intro o part part'
      exact apart (eq_of_common_part once grounded first second ((mem_occurrences grounded).1 part)
        ((mem_occurrences grounded).1 part'))

theorem nodup_written : p.written.Nodup := by
  refine List.nodup_flatMap.2 ⟨fun r _ => nodup_occurrences once grounded r, ?_⟩
  refine once.of_append_right.pairwise_of_forall_ne fun r root r' root' apart => ?_
  intro e part part'
  exact apart (root_unique once root root' ((mem_occurrences grounded).1 part)
    ((mem_occurrences grounded).1 part'))

/-- Counting the nodes of all trees counts what is reachable. -/
theorem expressionNodes_eq_ncard : p.stats.expressionNodes = {e | p.Reachable e}.ncard := by
  have same : {e | p.Reachable e} = (p.written.toFinset : Set ExprId) :=
    Set.ext fun e => (mem_written grounded).symm.trans List.mem_toFinset.symm
  rw [same, Set.ncard_coe_finset, List.toFinset_card_of_nodup (nodup_written once grounded),
    expressionNodes_eq grounded]

end Unshared

theorem Linear.lt_of_reachable {held : List ExprId} (linear : p.Linear held) (grounded : p.Grounded)
    {e : ExprId} (reachable : p.Reachable e) : e < p.exprCount := by
  obtain ⟨r, root, path⟩ := reachable
  have made : r < p.exprCount :=
    linear.lt_exprCount (List.mem_append_left _ (List.mem_append_right _ root))
  exact Nat.lt_of_le_of_lt (grounded.le_of_reaches path) made

theorem Linear.expressionNodes_le {held : List ExprId} (linear : p.Linear held)
    (grounded : p.Grounded) : p.stats.expressionNodes ≤ p.exprCount := by
  have made : p.written ⊆ List.range p.exprCount := fun e member =>
    List.mem_range.2 (linear.lt_of_reachable grounded ((mem_written grounded).1 member))
  have nodup := nodup_written linear.nodup.of_append_left grounded
  have few := (nodup.subperm made).length_le
  rwa [List.length_range, ← expressionNodes_eq grounded] at few

end Program

/-- No expression of a generated class is used twice, be it by other expressions, by statements or as first
values of fields, so what is evaluated lies in disjoint trees: each expression is part of at most one
other, which is newer, and of one that is evaluated for itself. All that is written is written once,
and the nodes counted are those that are reachable, at most as many as were made. -/
theorem generated_unshared (catalog : Catalog) (seed : UInt64) (config : Config) :
    ∃ p c, generateWith catalog seed config = .ok (p, c) ∧
      p.uses.Nodup ∧
      (∀ e a, p.Operand a e → e < a ∧ e ∉ p.roots ∧ ∀ b, p.Operand b e → b = a) ∧
      (∀ e, p.Reachable e → ∃! r, r ∈ p.roots ∧ ReflTransGen p.Operand r e) ∧
      (p.roots.map p.tree).flatMap Tree.subtrees = p.written.map p.tree ∧ p.written.Nodup ∧
      (∀ e, e ∈ p.written ↔ p.Reachable e) ∧
      p.stats.expressionNodes = {e | p.Reachable e}.ncard ∧ p.stats.expressionNodes ≤ p.exprCount := by
  obtain ⟨p, c, done, generated⟩ := generateWith_ok catalog seed config
  have grounded := generated.sound.grounded
  have linear := generated.linear
  have once : p.uses.Nodup := linear.nodup.of_append_left
  refine ⟨p, c, done, once, fun e a operand => ?_, fun e => existsUnique_root once,
    subtrees_roots grounded, nodup_written once grounded, fun e => mem_written grounded,
    expressionNodes_eq_ncard once grounded, linear.expressionNodes_le grounded⟩
  exact ⟨grounded a e operand, fun root => not_operand_of_root once root operand,
    fun b operand' => operand_unique once operand' operand⟩

end JavaSmith
