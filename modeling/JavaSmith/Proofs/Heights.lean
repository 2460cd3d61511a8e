import JavaSmith.Proofs.Costs
import JavaSmith.Proofs.Growth

/-! How high the trees of expressions are. A tree is read off the nodes that were there when its root was
added, so it stays as high as it was, and a new node is one step higher than its highest operand. -/
namespace JavaSmith

namespace Tree

mutual

def height : Tree → Nat
  | constant _ _ | read _ | hole => 0
  | call _ args | construct _ args => heightAbove args
  | newArray _ sizes => heightAbove sizes
  | send receiver _ args => max (receiver.height + 1) (heightAbove args)
  | cast _ operand => operand.height + 1
  | binary _ left right => max left.height right.height + 1
  | assign _ source => source.height + 1

def heightAbove : List Tree → Nat
  | [] => 0
  | t :: rest => max (t.height + 1) (heightAbove rest)

end

theorem heightAbove_le_iff {ts : List Tree} {n : Nat} :
    heightAbove ts ≤ n ↔ ∀ t ∈ ts, t.height < n := by
  induction ts with
  | nil => simp [heightAbove]
  | cons t rest ih =>
    rw [heightAbove, Nat.max_le, ih, List.forall_mem_cons]
    rfl

theorem height_toTree_le_iff {node : Node} {t : Ty} {operand : ExprId → Tree} {n : Nat} :
    (node.toTree t operand).height ≤ n ↔ ∀ o ∈ node.operands, (operand o).height < n := by
  cases node with
  | constant | read | hole => simp [Node.toTree, Node.operands, height]
  | call callee receiver args =>
    cases receiver with
    | none => simp [Node.toTree, Node.operands, height, heightAbove_le_iff]
    | some receiver =>
      rw [Node.toTree, height, Nat.max_le, heightAbove_le_iff, List.forall_mem_map, Node.operands,
        Option.toList_some, List.singleton_append, List.forall_mem_cons]
      rfl
  | construct | newArray => simp [Node.toTree, Node.operands, height, heightAbove_le_iff]
  | cast t source | assign v source =>
    rw [Node.toTree, height, Node.operands, List.forall_mem_singleton]
    rfl
  | binary op left right =>
    rw [Node.toTree, height, Node.operands, List.forall_mem_cons, List.forall_mem_singleton,
      ← Nat.max_lt]
    rfl

end Tree

namespace Program

variable {p p' : Program} {e : ExprId} {m n : Nat}

theorem Extends.tree (h : p.Extends p') (inside : e < p.arena.size) : p'.tree e = p.tree e := by
  induction e using Nat.strongRecOn with
  | ind e ih =>
    rw [tree_cut, tree_cut, h.node inside, h.typeOf inside]
    apply Node.toTree_congr
    intro o _
    split
    · next below => exact ih o below (Nat.lt_trans below inside)
    · rfl

/-- The expression has been made, and its tree is lower than `n`. -/
structure Low (p : Program) (n : Nat) (e : ExprId) : Prop where
  inside : e < p.arena.size
  height : (p.tree e).height < n

namespace Low

theorem later (low : p.Low n e) (h : p.Extends p') : p'.Low n e where
  inside := Nat.lt_of_lt_of_le low.inside h.arena_size
  height := h.tree low.inside ▸ low.height

theorem mono (low : p.Low m e) (le : m ≤ n) : p.Low n e where
  inside := low.inside
  height := Nat.lt_of_lt_of_le low.height le

theorem add {node : Node} (t : Ty) (operands : ∀ o ∈ node.operands, p.Low n o) :
    (p.add node t).2.Low (n + 1) (p.add node t).1 where
  inside := by simp [Program.add]
  height := by
    have new : (p.add node t).2.node p.arena.size = node := by simp [Program.add, Program.node]
    have before : ∀ o ∈ ((p.add node t).2.node p.arena.size).operands, o < p.arena.size := by
      rw [new]
      exact fun o member => (operands o member).inside
    change ((p.add node t).2.tree p.arena.size).height < n + 1
    rw [tree_eq before, new, Nat.lt_succ_iff, Tree.height_toTree_le_iff]
    exact fun o member => ((operands o member).later (p.extends_add node t)).height

end Low

end Program
end JavaSmith
