import Mathlib.Algebra.BigOperators.Ring.List
import Mathlib.Algebra.Order.BigOperators.Group.List
import Mathlib.Algebra.Order.Ring.Nat
import JavaSmith.Proofs.RunCosts
import JavaSmith.Proofs.Generators.Blocks

/-! How far the budget holds the cost of a run. Each part of a body draws on the budget at its place,
and parts that stand beside one another draw on the same one; so the cost of a body is bounded by the
budget times the number of its parts, and not by the budget itself. -/
namespace JavaSmith

open Generator Cost

namespace Program

def evaluatedNodes (p : Program) (ss : List Statement) : Nat :=
  Tree.nodeCountAll ((ss.flatMap Statement.roots).map p.tree)

/-- Shares of the budget that a block may take: three for each statement and two for each node. -/
def shares (p : Program) (b : Block) : Nat :=
  3 * (visitBlock b).length + 2 * p.evaluatedNodes (visitBlock b)

variable {p : Program} {e : ExprId}

theorem evaluatedNodes_append (p : Program) (ss ts : List Statement) :
    p.evaluatedNodes (ss ++ ts) = p.evaluatedNodes ss + p.evaluatedNodes ts := by
  simp [evaluatedNodes, Tree.nodeCountAll_eq]

theorem evaluatedNodes_cons (p : Program) (s : Statement) (ss : List Statement) :
    p.evaluatedNodes (s :: ss) = p.evaluatedNodes [s] + p.evaluatedNodes ss :=
  p.evaluatedNodes_append [s] ss

theorem shares_append (p : Program) (a b : Block) : p.shares (a ++ b) = p.shares a + p.shares b := by
  unfold shares
  rw [visitBlock_append, List.length_append, evaluatedNodes_append]
  omega

theorem shares_cons (p : Program) (s : Statement) (rest : Block) :
    p.shares (s :: rest) = p.shares [s] + p.shares rest :=
  p.shares_append [s] rest

theorem shares_singleton {s : Statement} {inner : Block} (visits : s.visit = s :: visitBlock inner)
    (roots : s.roots = [e]) :
    p.shares [s] = 3 + 2 * (p.tree e).nodeCount + p.shares inner := by
  have own : p.evaluatedNodes [s] = (p.tree e).nodeCount := by
    simp [evaluatedNodes, roots, Tree.nodeCountAll_eq]
  unfold shares
  rw [visitBlock, visitBlock, List.append_nil, visits, List.length_cons, evaluatedNodes_cons, own]
  omega

theorem ExprWithin.exprCost_le {budget : Nat} (within : p.ExprWithin budget e)
    (grounded : p.Grounded) (positive : 0 < budget) :
    p.exprCost e ≤ 2 * budget * (p.tree e).nodeCount := by
  induction e using Nat.strong_induction_on with
  | _ e ih =>
    have steps : (p.node e).steps ≤ 1 := by
      unfold Node.steps
      split <;> omega
    have callee : (p.node e).calleeCost p.declared ≤ budget := by
      unfold Node.calleeCost
      cases called : (p.node e).callee? with
      | none => exact Nat.zero_le _
      | some k => exact (within.callee called).2
    have operands : ((p.node e).operands.map p.exprCost).sum ≤
        2 * budget * ((p.node e).operands.map fun o => (p.tree o).nodeCount).sum := by
      rw [← List.sum_map_mul_left (p.node e).operands]
      exact List.sum_le_sum fun o operand =>
        ih o (grounded e o operand) (within.operand grounded operand)
    rw [exprCost_eq (grounded e), nodeCount_eq (grounded e), Nat.mul_add]
    refine Nat.le_trans (capped_le _) ?_
    omega

mutual

theorem StatementWithin.statementCost_le {budget : Nat} {s : Statement}
    (within : p.StatementWithin budget s) (grounded : p.Grounded) (positive : 0 < budget) :
    p.statementCost s ≤ budget * p.shares [s] := by
  cases s with
  | expression e | declare l e | print e | returnValue e =>
    rw [StatementWithin] at within
    have value := within.exprCost_le grounded positive
    rw [statementCost, @shares_singleton p e _ [] rfl rfl]
    refine Nat.le_trans (capped_le _) ?_
    lia
  | returnVoid =>
    rw [statementCost]
    have parts : 0 < p.shares [.returnVoid] := by
      simp only [shares, visitBlock, Statement.visit, List.append_nil, List.length_singleton]
      omega
    exact Nat.le_trans positive (Nat.le_mul_of_pos_right budget parts)
  | ifThen condition body =>
    rw [StatementWithin] at within
    have value := within.1.exprCost_le grounded positive
    have inner := within.2.blockCost_le grounded positive
    rw [statementCost, shares_singleton rfl rfl]
    unfold Cost.add
    lia
  | ifElse condition body otherwise =>
    rw [StatementWithin] at within
    have value := within.1.exprCost_le grounded positive
    have inner := within.2.1.blockCost_le grounded positive
    have other := within.2.2.blockCost_le grounded positive
    rw [statementCost, shares_singleton (Statement.visit_ifElse condition body otherwise) rfl,
      shares_append]
    unfold Cost.add
    lia
  | loop kind counter bound body =>
    rw [StatementWithin] at within
    obtain ⟨bounds, affordable, within⟩ := within
    have least : 1 ≤ p.knobs.get .maxLoopIterations := (p.knobs.inRange .maxLoopIterations).1
    have inner := within.blockCost_le grounded (Nat.div_pos affordable least)
    rw [statementCost, shares_singleton rfl rfl, bounds.exprCost_eq_zero]
    calc
      _ ≤ p.iterationBound bound * (1 + p.blockCost body) + 2 := by
        refine Nat.le_trans (capped_le _) (Nat.add_le_add_right ?_ 2)
        refine Nat.le_trans (capped_le _) (Nat.mul_le_mul_left _ (capped_le _))
      _ ≤ p.knobs.get .maxLoopIterations * (1 + p.blockCost body) + 2 :=
        Nat.add_le_add_right (Nat.mul_le_mul_right _ bounds.iterationBound_le) 2
      _ ≤ budget + budget * p.shares body + 2 * budget := by
        have shared := Nat.mul_le_mul_left (p.knobs.get .maxLoopIterations) inner
        rw [← Nat.mul_assoc] at shared
        have all := Nat.mul_le_mul_right (p.shares body)
          (Nat.mul_div_le budget (p.knobs.get .maxLoopIterations))
        rw [Nat.mul_add]
        omega
      _ ≤ budget * (3 + 2 * (p.tree bound).nodeCount + p.shares body) := by lia

theorem BlockWithin.blockCost_le {budget : Nat} {b : Block} (within : p.BlockWithin budget b)
    (grounded : p.Grounded) (positive : 0 < budget) : p.blockCost b ≤ budget * p.shares b := by
  cases b with
  | nil => exact Nat.zero_le _
  | cons s rest =>
    rw [BlockWithin] at within
    have first := within.1.statementCost_le grounded positive
    have others := within.2.blockCost_le grounded positive
    rw [blockCost, shares_cons, Nat.mul_add]
    exact Nat.le_trans (capped_le _) (Nat.add_le_add first others)

end

end Program

open Program

/-- The cost of every method is bounded by the budget of a run times the parts of its body. -/
theorem generated_cost_le_shares (catalog : Catalog) (seed : UInt64) (config : Config) :
    ∃ p c, generateWith catalog seed config = .ok (p, c) ∧ ∀ m ∈ p.methodsInOrder,
      (p.declared.method m.method).cost ≤ runBudget *
        (3 * (visitBlock m.body).length + 2 * p.evaluatedNodes (visitBlock m.body)) := by
  obtain ⟨p, c, done, generated⟩ := generateWith_ok catalog seed config
  refine ⟨p, c, done, fun m member => ?_⟩
  obtain ⟨recorded, within⟩ := generated.costed m member
  rw [recorded]
  exact within.blockCost_le generated.grounded (by decide)

end JavaSmith
