import JavaSmith.Proofs.Costs

/-! Code that keeps within a budget: whatever it calls is complete and costs no more than its share,
and the body of a loop gets the share of one iteration. The budget bounds each call on its own; calls
that stand beside one another draw on the same one. -/
namespace JavaSmith

open Relation

namespace Program

/-- All that the expression calls is complete and costs no more than the budget. -/
structure ExprWithin (p : Program) (budget : Nat) (e : ExprId) : Prop where
  inside : e < p.arena.size
  calls : ∀ k, p.Invokes e k → k ∈ p.completed ∧ (p.declared.method k).cost ≤ budget

/-- A constant or a variable that a loop may count up to. -/
structure BoundsLoop (p : Program) (bound : ExprId) : Prop where
  inside : bound < p.arena.size
  leaf : (∃ v, p.node bound = .constant v) ∨ ∃ v, p.node bound = .read v
  accepted : (Ty.loopBound (p.knobs.get .maxLoopIterations)).accepts (p.typeOf bound) = true

mutual

def StatementWithin (p : Program) (budget : Nat) : Statement → Prop
  | .expression e | .declare _ e | .print e | .returnValue e => p.ExprWithin budget e
  | .returnVoid => True
  | .ifThen condition body => p.ExprWithin budget condition ∧ p.BlockWithin budget body
  | .ifElse condition body otherwise =>
    p.ExprWithin budget condition ∧ p.BlockWithin budget body ∧ p.BlockWithin budget otherwise
  | .loop _ _ bound body =>
    p.BoundsLoop bound ∧ p.knobs.get .maxLoopIterations ≤ budget ∧
      p.BlockWithin (budget / p.knobs.get .maxLoopIterations) body

def BlockWithin (p : Program) (budget : Nat) : Block → Prop
  | [] => True
  | s :: rest => p.StatementWithin budget s ∧ p.BlockWithin budget rest

end

/-- A later state of the class in which the costs of all methods that were complete are the same. -/
structure Settles (p p' : Program) : Prop where
  later : p.Extends p'
  costs : ∀ k ∈ p.completed, (p'.declared.method k).cost = (p.declared.method k).cost

variable {p p' p'' : Program} {e bound : ExprId}

theorem ExprWithin.mono {budget budget' : Nat} (within : p.ExprWithin budget e)
    (more : budget ≤ budget') : p.ExprWithin budget' e where
  inside := within.inside
  calls k invokes := (within.calls k invokes).imp_right fun cheap => Nat.le_trans cheap more

theorem blockWithin_append {budget : Nat} {a b : Block} :
    p.BlockWithin budget (a ++ b) ↔ p.BlockWithin budget a ∧ p.BlockWithin budget b := by
  induction a with
  | nil => simp [BlockWithin]
  | cons s rest ih => simp only [List.cons_append, BlockWithin, ih, and_assoc]

theorem blockWithin_singleton {budget : Nat} {s : Statement} :
    p.BlockWithin budget [s] ↔ p.StatementWithin budget s := by
  simp [BlockWithin]

mutual

theorem StatementWithin.mono {budget budget' : Nat} {s : Statement}
    (within : p.StatementWithin budget s) (more : budget ≤ budget') : p.StatementWithin budget' s := by
  cases s with
  | expression e | declare l e | print e | returnValue e =>
    rw [StatementWithin] at within ⊢
    exact within.mono more
  | returnVoid => trivial
  | ifThen condition body =>
    rw [StatementWithin] at within ⊢
    exact ⟨within.1.mono more, within.2.mono more⟩
  | ifElse condition body otherwise =>
    rw [StatementWithin] at within ⊢
    exact ⟨within.1.mono more, within.2.1.mono more, within.2.2.mono more⟩
  | loop kind counter bound body =>
    rw [StatementWithin] at within ⊢
    obtain ⟨bounds, affordable, within⟩ := within
    exact ⟨bounds, Nat.le_trans affordable more, within.mono (Nat.div_le_div_right more)⟩

theorem BlockWithin.mono {budget budget' : Nat} {b : Block} (within : p.BlockWithin budget b)
    (more : budget ≤ budget') : p.BlockWithin budget' b := by
  cases b with
  | nil => trivial
  | cons s rest =>
    rw [BlockWithin] at within ⊢
    exact ⟨within.1.mono more, within.2.mono more⟩

end

/-! What keeps within a budget does so later, at the same cost. -/

section Later

variable {budget : Nat}

theorem ExprWithin.later (within : p.ExprWithin budget e) (grounded : p.Grounded)
    (settles : p.Settles p') : p'.ExprWithin budget e where
  inside := Nat.lt_of_lt_of_le within.inside settles.later.arena_size
  calls k invokes := by
    obtain ⟨complete, cheap⟩ :=
      within.calls k (invokes.of_later grounded settles.later within.inside)
    exact ⟨settles.later.completed.subset complete, settles.costs k complete ▸ cheap⟩

theorem ExprWithin.operand (within : p.ExprWithin budget e) (grounded : p.Grounded) {o : ExprId}
    (operand : p.Operand e o) : p.ExprWithin budget o where
  inside := Nat.lt_trans (grounded e o operand) within.inside
  calls k := by
    rintro ⟨o', path, called⟩
    exact within.calls k ⟨o', .head operand path, called⟩

theorem ExprWithin.callee (within : p.ExprWithin budget e) {k : MethodId}
    (called : (p.node e).callee? = some k) :
    k ∈ p.completed ∧ (p.declared.method k).cost ≤ budget :=
  within.calls k ⟨e, .refl, called⟩

theorem ExprWithin.exprCost_later (within : p.ExprWithin budget e) (grounded : p.Grounded)
    (settles : p.Settles p') : p'.exprCost e = p.exprCost e := by
  induction e using Nat.strong_induction_on with
  | _ e ih =>
    have same := settles.later.node within.inside
    have before : ∀ o ∈ (p'.node e).operands, o < e := same ▸ grounded e
    have callee : (p.node e).calleeCost p'.declared = (p.node e).calleeCost p.declared := by
      unfold Node.calleeCost
      cases called : (p.node e).callee? with
      | none => rfl
      | some k => exact settles.costs k (within.callee called).1
    have operands : (p.node e).operands.map p'.exprCost = (p.node e).operands.map p.exprCost :=
      List.map_congr_left fun o operand =>
        ih o (grounded e o operand) (within.operand grounded operand)
    rw [exprCost_eq before, exprCost_eq (grounded e), same, callee, operands]

theorem BoundsLoop.later (bounds : p.BoundsLoop bound) (h : p.Extends p') :
    p'.BoundsLoop bound where
  inside := Nat.lt_of_lt_of_le bounds.inside h.arena_size
  leaf := by
    rw [h.node bounds.inside]
    exact bounds.leaf
  accepted := by
    rw [h.typeOf bounds.inside, h.knobs]
    exact bounds.accepted

theorem BoundsLoop.exprWithin (bounds : p.BoundsLoop bound) : p.ExprWithin budget bound where
  inside := bounds.inside
  calls k := by
    rintro ⟨o, path, called⟩
    rcases path.cases_head with rfl | ⟨first, operand, _⟩
    · rcases bounds.leaf with ⟨v, leaf⟩ | ⟨v, leaf⟩ <;> simp [leaf, Node.callee?] at called
    · rcases bounds.leaf with ⟨v, leaf⟩ | ⟨v, leaf⟩ <;> simp [Operand, leaf, Node.operands] at operand

end Later

theorem BoundsLoop.iterationBound_later (bounds : p.BoundsLoop bound) (h : p.Extends p') :
    p'.iterationBound bound = p.iterationBound bound := by
  unfold iterationBound
  rw [h.typeOf bounds.inside, h.knobs]

theorem BoundsLoop.exprCost_eq_zero (bounds : p.BoundsLoop bound) : p.exprCost bound = 0 := by
  rcases bounds.leaf with ⟨v, leaf⟩ | ⟨v, leaf⟩
  · rw [exprCost_eq (by simp [leaf, Node.operands]), leaf]
    rfl
  · rw [exprCost_eq (by simp [leaf, Node.operands]), leaf]
    rfl

theorem iterationBound_of_max? {r : Restriction} {greatest : Int}
    (type : p.typeOf bound = .restricted r) (last : r.domain.max? = some greatest) :
    p.iterationBound bound = greatest.toNat := by
  unfold iterationBound
  rw [type]
  dsimp only
  rw [last, Option.getD_some]

theorem BoundsLoop.iterationBound_le (bounds : p.BoundsLoop bound) :
    p.iterationBound bound ≤ p.knobs.get .maxLoopIterations := by
  obtain ⟨r, type, _, within⟩ := Ty.restricted_accepts bounds.accepted
  cases last : r.domain.max? with
  | none =>
    unfold iterationBound
    rw [type]
    dsimp only
    rw [last]
    exact Nat.zero_le _
  | some greatest =>
    have held := Domain.holds_of_contains within (Domain.holds_of_max? last)
    have least : 1 ≤ p.knobs.get .maxLoopIterations := (p.knobs.inRange .maxLoopIterations).1
    have := (Domain.holds_range.1 held).2
    rw [iterationBound_of_max? type last]
    omega

mutual

theorem StatementWithin.later {budget : Nat} {s : Statement}
    (within : p.StatementWithin budget s) (grounded : p.Grounded) (settles : p.Settles p') :
    p'.StatementWithin budget s := by
  cases s with
  | expression e | declare l e | print e | returnValue e =>
    rw [StatementWithin] at within ⊢
    exact within.later grounded settles
  | returnVoid => trivial
  | ifThen condition body =>
    rw [StatementWithin] at within ⊢
    exact ⟨within.1.later grounded settles, within.2.later grounded settles⟩
  | ifElse condition body otherwise =>
    rw [StatementWithin] at within ⊢
    exact ⟨within.1.later grounded settles, within.2.1.later grounded settles,
      within.2.2.later grounded settles⟩
  | loop kind counter bound body =>
    rw [StatementWithin] at within ⊢
    rw [settles.later.knobs]
    obtain ⟨bounds, affordable, within⟩ := within
    exact ⟨bounds.later settles.later, affordable, within.later grounded settles⟩

theorem BlockWithin.later {budget : Nat} {b : Block} (within : p.BlockWithin budget b)
    (grounded : p.Grounded) (settles : p.Settles p') : p'.BlockWithin budget b := by
  cases b with
  | nil => trivial
  | cons s rest =>
    rw [BlockWithin] at within ⊢
    exact ⟨within.1.later grounded settles, within.2.later grounded settles⟩

end

mutual

theorem StatementWithin.statementCost_later {budget : Nat} {s : Statement}
    (within : p.StatementWithin budget s) (grounded : p.Grounded) (settles : p.Settles p') :
    p'.statementCost s = p.statementCost s := by
  cases s with
  | expression e | declare l e | print e | returnValue e =>
    rw [StatementWithin] at within
    rw [statementCost, statementCost, within.exprCost_later grounded settles]
  | returnVoid => rfl
  | ifThen condition body =>
    rw [StatementWithin] at within
    rw [statementCost, statementCost, within.1.exprCost_later grounded settles,
      within.2.blockCost_later grounded settles]
  | ifElse condition body otherwise =>
    rw [StatementWithin] at within
    rw [statementCost, statementCost, within.1.exprCost_later grounded settles,
      within.2.1.blockCost_later grounded settles, within.2.2.blockCost_later grounded settles]
  | loop kind counter bound body =>
    rw [StatementWithin] at within
    obtain ⟨bounds, _, within⟩ := within
    have free : p.ExprWithin budget bound := bounds.exprWithin
    rw [statementCost, statementCost, bounds.iterationBound_later settles.later,
      free.exprCost_later grounded settles, within.blockCost_later grounded settles]

theorem BlockWithin.blockCost_later {budget : Nat} {b : Block} (within : p.BlockWithin budget b)
    (grounded : p.Grounded) (settles : p.Settles p') : p'.blockCost b = p.blockCost b := by
  cases b with
  | nil => rfl
  | cons s rest =>
    rw [BlockWithin] at within
    rw [blockCost, blockCost, within.1.statementCost_later grounded settles,
      within.2.blockCost_later grounded settles]

end

/-! New nodes. -/

variable {budget : Nat}

theorem ExprWithin.calling (within : p.ExprWithin budget e) :
    p.Calling (fun k => k ∈ p.completed ∧ (p.declared.method k).cost ≤ budget) e :=
  ⟨within.inside, within.calls⟩

theorem ExprWithin.add (grounded : p.Grounded) {node : Node} {t : Ty}
    (operands : ∀ o ∈ node.operands, p.ExprWithin budget o)
    (own : ∀ k, node.callee? = some k →
      k ∈ p.completed ∧ (p.declared.method k).cost ≤ budget) :
    (p.add node t).2.ExprWithin budget (p.add node t).1 := by
  obtain ⟨inside, calls⟩ := Calling.add grounded t (fun o member => (operands o member).calling) own
  exact ⟨inside, calls⟩

theorem ExprWithin.addCallless (grounded : p.Grounded) {node : Node} {t : Ty}
    (operands : ∀ o ∈ node.operands, p.ExprWithin budget o) (callless : node.callee? = none) :
    (p.add node t).2.ExprWithin budget (p.add node t).1 :=
  .add grounded operands fun k called => by rw [callless] at called; contradiction

theorem ExprWithin.applied {left right : ExprId} (within : p.ExprWithin budget left)
    (within' : p.ExprWithin budget right) (grounded : p.Grounded) (use : Generator.OperatorUse)
    (t : Ty) : (p.applied use t left right).2.ExprWithin budget (p.applied use t left right).1 := by
  obtain ⟨_, inside, calls⟩ := within.calling.applied within'.calling grounded use t
  obtain ⟨declared, methods, _⟩ := p.declared_applied use t left right
  refine ⟨inside, fun k invokes => ?_⟩
  rw [completed, methods, declared]
  exact calls k invokes

end Program
end JavaSmith
