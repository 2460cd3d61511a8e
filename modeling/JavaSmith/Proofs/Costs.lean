import Mathlib.Algebra.Order.Ring.Nat
import JavaSmith.Proofs.Completion

/-! Costs in closed form. Sums that stop at the greatest word are sums of natural numbers cut off once at
the end, so the cost of an expression is that of its node, of what the node calls and of its
operands. -/
namespace JavaSmith

namespace Cost

theorem add_le_limit (a b : Nat) : add a b ≤ limit := Nat.min_le_right ..

def capped (n : Nat) : Nat := min n limit

theorem capped_of_le {n : Nat} (h : n ≤ limit) : capped n = n := Nat.min_eq_left h

theorem capped_le (n : Nat) : capped n ≤ n := Nat.min_le_left ..

theorem capped_le_limit (n : Nat) : capped n ≤ limit := Nat.min_le_right ..

end Cost

namespace Node

def toTree (t : Ty) (operand : ExprId → Tree) : Node → Tree
  | .constant v => .constant v t
  | .read v => .read v
  | .call callee none args => .call callee (args.map operand)
  | .call callee (some receiver) args => .send (operand receiver) callee (args.map operand)
  | .construct t args => .construct t (args.map operand)
  | .newArray t sizes => .newArray t (sizes.map operand)
  | .cast t source => .cast t (operand source)
  | .binary op left right => .binary op (operand left) (operand right)
  | .assign v source => .assign v (operand source)
  | .hole => .hole

/-- Steps of the node itself, without its operands and without a body that it calls. -/
def steps : Node → Nat
  | .call _ _ _ | .construct _ _ | .newArray _ _ => 1
  | _ => 0

def calleeCost (d : Declarations) (node : Node) : Nat :=
  (node.callee?.map fun m => (d.method m).cost).getD 0

end Node

namespace Tree

open Cost

theorem costAll_eq (d : Declarations) {total : Nat} (ts : List Tree) (h : total ≤ limit) :
    costAll d total ts = capped (total + (ts.map (cost d)).sum) := by
  induction ts generalizing total with
  | nil => exact (capped_of_le h).symm
  | cons t rest ih =>
    rw [costAll, ih (add_le_limit ..), List.map_cons, List.sum_cons]
    unfold add capped
    omega

theorem ownCost_eq (d : Declarations) (callee : Callee) (receiver : Option ExprId)
    (args : List ExprId) :
    ownCost d callee = capped (1 + (Node.call callee receiver args).calleeCost d) := by
  unfold ownCost Node.calleeCost Node.callee?
  dsimp only
  cases callee.method with
  | none => rfl
  | some m => rfl

theorem cost_le_limit (d : Declarations) : (t : Tree) → t.cost d ≤ limit
  | constant _ _ | read _ | hole => by
    rw [cost]
    exact Nat.zero_le _
  | call callee args => by
    rw [cost, costAll_eq d args (ownCost_eq d callee none [] ▸ capped_le_limit _)]
    exact capped_le_limit _
  | send receiver callee args => by
    rw [cost, costAll_eq d args (add_le_limit ..)]
    exact capped_le_limit _
  | construct _ args | newArray _ args => by
    rw [cost, costAll_eq d args (by decide)]
    exact capped_le_limit _
  | cast _ operand => by
    rw [cost]
    exact operand.cost_le_limit d
  | binary _ left right => by
    rw [cost]
    exact add_le_limit ..
  | assign _ source => by
    rw [cost]
    exact source.cost_le_limit d

theorem cost_toTree (d : Declarations) (node : Node) (t : Ty) (operand : ExprId → Tree) :
    (node.toTree t operand).cost d =
      capped (node.steps + node.calleeCost d +
        (node.operands.map fun o => (operand o).cost d).sum) := by
  have one : 1 ≤ limit := by decide
  cases node with
  | constant | read | hole => rfl
  | call callee receiver args =>
    have own := ownCost_eq d callee receiver args
    have below : ownCost d callee ≤ limit := own ▸ capped_le_limit _
    cases receiver with
    | none =>
      rw [Node.toTree, cost, costAll_eq d _ below, own, List.map_map]
      change _ = capped (1 + _ + (List.map ((cost d) ∘ operand) args).sum)
      unfold capped
      omega
    | some receiver =>
      rw [Node.toTree, cost, costAll_eq d _ (add_le_limit ..), own, List.map_map]
      change _ = capped (1 + _ + ((operand receiver).cost d + (List.map ((cost d) ∘ operand) args).sum))
      unfold add capped
      omega
  | construct t args | newArray t args =>
    rw [Node.toTree, cost, costAll_eq d _ one, List.map_map]
    rfl
  | cast t source | assign v source =>
    rw [Node.toTree, cost]
    simp [Node.steps, Node.calleeCost, Node.callee?, Node.operands,
      capped_of_le ((operand source).cost_le_limit d)]
  | binary op left right =>
    rw [Node.toTree, cost]
    simp [Node.steps, Node.calleeCost, Node.callee?, Node.operands, add, capped]

theorem nodeCountAll_eq (ts : List Tree) : nodeCountAll ts = (ts.map nodeCount).sum := by
  induction ts with
  | nil => rfl
  | cons t rest ih => rw [nodeCountAll, ih, List.map_cons, List.sum_cons]

theorem nodeCount_toTree (node : Node) (t : Ty) (operand : ExprId → Tree) :
    (node.toTree t operand).nodeCount =
      1 + (node.operands.map fun o => (operand o).nodeCount).sum := by
  cases node with
  | constant | read | hole => rfl
  | call callee receiver args =>
    cases receiver with
    | none =>
      rw [Node.toTree, nodeCount, nodeCountAll_eq, List.map_map]
      rfl
    | some receiver =>
      rw [Node.toTree, nodeCount, nodeCountAll_eq, List.map_map, Nat.add_assoc]
      rfl
  | construct t args | newArray t args =>
    rw [Node.toTree, nodeCount, nodeCountAll_eq, List.map_map]
    rfl
  | cast t source | assign v source => rfl
  | binary op left right =>
    rw [Node.toTree, nodeCount, Nat.add_assoc]
    rfl

end Tree

namespace Node

theorem toTree_congr (node : Node) (t : Ty) {f g : ExprId → Tree}
    (same : ∀ o ∈ node.operands, f o = g o) : node.toTree t f = node.toTree t g := by
  cases node with
  | constant | read | hole => rfl
  | call callee receiver args =>
    cases receiver with
    | none => exact congrArg _ (List.map_congr_left same)
    | some receiver =>
      have others : args.map f = args.map g :=
        List.map_congr_left fun o member => same o (List.mem_cons_of_mem receiver member)
      rw [toTree, toTree, same receiver List.mem_cons_self, others]
  | construct t args | newArray t args => exact congrArg _ (List.map_congr_left same)
  | cast t source | assign v source => exact congrArg _ (same source List.mem_cons_self)
  | binary op left right =>
    rw [toTree, toTree, same left List.mem_cons_self,
      same right (List.mem_cons_of_mem left List.mem_cons_self)]

end Node

namespace Program

open Cost

variable {p p' : Program} {e : ExprId}

/-- The tree of an expression, cut off where a number does not go down. -/
theorem tree_cut (p : Program) (e : ExprId) :
    p.tree e = (p.node e).toTree (p.typeOf e) fun o => if o < e then p.tree o else .hole := by
  rw [tree]
  cases p.node e with
  | call callee receiver args => cases receiver <;> rfl
  | _ => rfl

theorem tree_eq (before : ∀ o ∈ (p.node e).operands, o < e) :
    p.tree e = (p.node e).toTree (p.typeOf e) p.tree := by
  rw [tree_cut]
  exact Node.toTree_congr _ _ fun o member => if_pos (before o member)

/-- The cost of an expression is the sum of what its parts cost. -/
theorem exprCost_eq (before : ∀ o ∈ (p.node e).operands, o < e) :
    p.exprCost e = capped ((p.node e).steps + (p.node e).calleeCost p.declared +
      ((p.node e).operands.map p.exprCost).sum) := by
  unfold exprCost
  rw [tree_eq before, Tree.cost_toTree]

theorem nodeCount_eq (before : ∀ o ∈ (p.node e).operands, o < e) :
    (p.tree e).nodeCount =
      1 + ((p.node e).operands.map fun o => (p.tree o).nodeCount).sum := by
  rw [tree_eq before, Tree.nodeCount_toTree]

end Program
end JavaSmith
