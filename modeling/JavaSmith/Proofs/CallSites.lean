import JavaSmith.Proofs.Places
import JavaSmith.Proofs.RunCosts

/-! Every call can be afforded at its place. Each loop around it takes a share of the budget, and the
callee costs no more than what is left, however often the loops run; this says nothing of calls that
stand beside one another. -/
namespace JavaSmith

namespace Program

variable {p : Program} {budget loops depth : Nat} {b : Block} {s : Statement}

theorem BlockWithin.of_mem (within : p.BlockWithin budget b) (member : s ∈ b) :
    p.StatementWithin budget s := by
  induction b with
  | nil => contradiction
  | cons first rest ih =>
    rw [BlockWithin] at within
    rcases List.mem_cons.1 member with rfl | later
    · exact within.1
    · exact ih within.2 later

theorem StatementWithin.of_mem_blocks {inner : Block} (within : p.StatementWithin budget s)
    (member : inner ∈ s.blocks) :
    p.BlockWithin (budget / p.knobs.get .maxLoopIterations ^ s.isLoop.toNat) inner := by
  cases s with
  | ifThen condition body =>
    rw [StatementWithin] at within
    simpa [List.mem_singleton.1 member, Statement.isLoop] using within.2
  | ifElse condition body otherwise =>
    rw [StatementWithin] at within
    simp only [Statement.blocks, List.mem_cons, List.not_mem_nil, or_false] at member
    rcases member with rfl | rfl
    · simpa [Statement.isLoop] using within.2.1
    · simpa [Statement.isLoop] using within.2.2
  | loop kind counter bound body =>
    rw [StatementWithin] at within
    simpa [List.mem_singleton.1 member, Statement.isLoop] using within.2.2
  | _ => contradiction

/-- A statement keeps within what the loops around it leave of the budget. -/
theorem BlockWithin.of_holds (within : p.BlockWithin budget b) (holds : b.Holds loops depth s) :
    p.StatementWithin (budget / p.knobs.get .maxLoopIterations ^ loops) s := by
  induction holds generalizing budget with
  | here member => simpa using within.of_mem member
  | @within _ _ outer _ loops _ member inner _ ih =>
    have inside := ih ((within.of_mem member).of_mem_blocks inner)
    rw [Nat.div_div_eq_div_mul, ← Nat.pow_add, Nat.add_comm outer.isLoop.toNat] at inside
    exact inside

theorem StatementWithin.root {e : ExprId} (within : p.StatementWithin budget s)
    (root : e ∈ s.roots) : p.ExprWithin budget e := by
  cases s with
  | returnVoid => contradiction
  | expression | declare | print | returnValue =>
    rw [StatementWithin] at within
    exact List.mem_singleton.1 root ▸ within
  | ifThen | ifElse =>
    rw [StatementWithin] at within
    exact List.mem_singleton.1 root ▸ within.1
  | loop kind counter bound body =>
    rw [StatementWithin] at within
    exact List.mem_singleton.1 root ▸ within.1.exprWithin

theorem StatementWithin.affordable (within : p.StatementWithin budget s) (loop : s.isLoop = true) :
    p.knobs.get .maxLoopIterations ≤ budget := by
  cases s with
  | loop kind counter bound body =>
    rw [StatementWithin] at within
    exact within.2.1
  | _ => contradiction

end Program

open Program

/-- A called method, run as often as the loops around the call can run, costs no more than a run of the
entry may; and so often can the loops around one another run. -/
theorem generated_callSites_affordable (catalog : Catalog) (seed : UInt64) (config : Config) :
    ∃ p c, generateWith catalog seed config = .ok (p, c) ∧
      ∀ m ∈ p.methodsInOrder, ∀ loops depth s, m.body.Holds loops depth s →
        (∀ e ∈ s.roots, ∀ callee, p.Invokes e callee →
          (p.declared.method callee).cost * config.knobs.get .maxLoopIterations ^ loops ≤ 2 ^ 20) ∧
        (s.isLoop = true → config.knobs.get .maxLoopIterations ^ (loops + 1) ≤ 2 ^ 20) := by
  obtain ⟨p, c, done, generated⟩ := generateWith_ok catalog seed config
  refine ⟨p, c, done, fun m member loops depth s holds => ?_⟩
  have within : p.StatementWithin (2 ^ 20 / config.knobs.get .maxLoopIterations ^ loops) s := by
    rw [← generated.knobs]
    exact (generated.costed m member).within.of_holds holds
  constructor
  · intro e root callee invokes
    have cheap := ((within.root root).calls callee invokes).2
    exact Nat.mul_le_of_le_div _ _ _ cheap
  · intro loop
    have affordable := within.affordable loop
    rw [generated.knobs] at affordable
    rw [Nat.pow_succ']
    exact Nat.mul_le_of_le_div _ _ _ affordable

end JavaSmith
