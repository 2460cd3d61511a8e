import JavaSmith.Proofs.RunCosts

/-! The recorded costs bound what is executed. Executions are counted, not their values: a branch may go
either way, and a loop may stop after any number of iterations up to that of its bound. -/
namespace JavaSmith

open Cost

/-- Operators whose right operand is evaluated only if the left one leaves the result open. -/
def Operator.isShortCircuit : Operator → Bool
  | and | or => true
  | _ => false

inductive Code where
  | expr (e : ExprId)
  | exprs (es : List ExprId)
  | statement (s : Statement)
  | block (b : Block)
  /-- So many more iterations of a loop. -/
  | iterations (count : Nat) (bound : ExprId) (body : Block)

namespace Program

/-- `p.Executes code n` says that some execution of the code takes `n` steps. Every statement, call and
creation is a step, and so is every iteration; a loop takes two more. -/
inductive Executes (p : Program) : Code → Nat → Prop where
  | node {e : ExprId} {n : Nat} : (p.node e).callee? = none →
      Executes p (.exprs (p.node e).operands) n → Executes p (.expr e) ((p.node e).steps + n)
  /-- A call of a generated method executes its body. -/
  | call {e : ExprId} {m : MethodDeclaration} {n n' : Nat} :
      (p.node e).callee? = some m.method → m ∈ p.methodsInOrder →
      Executes p (.exprs (p.node e).operands) n → Executes p (.block m.body) n' →
      Executes p (.expr e) (1 + n + n')
  /-- The left operand leaves nothing open. -/
  | decided {e left right : ExprId} {op : Operator} {n : Nat} :
      p.node e = .binary op left right → op.isShortCircuit = true → Executes p (.expr left) n →
      Executes p (.expr e) n
  | noExprs : Executes p (.exprs []) 0
  | moreExprs {e : ExprId} {es : List ExprId} {n n' : Nat} :
      Executes p (.expr e) n → Executes p (.exprs es) n' → Executes p (.exprs (e :: es)) (n + n')
  | expression {e : ExprId} {n : Nat} :
      Executes p (.expr e) n → Executes p (.statement (.expression e)) (1 + n)
  | declare {l : LocalId} {e : ExprId} {n : Nat} :
      Executes p (.expr e) n → Executes p (.statement (.declare l e)) (1 + n)
  | print {e : ExprId} {n : Nat} :
      Executes p (.expr e) n → Executes p (.statement (.print e)) (1 + n)
  | returnValue {e : ExprId} {n : Nat} :
      Executes p (.expr e) n → Executes p (.statement (.returnValue e)) (1 + n)
  | returnVoid : Executes p (.statement .returnVoid) 1
  | thenTaken {condition : ExprId} {body : Block} {n n' : Nat} :
      Executes p (.expr condition) n → Executes p (.block body) n' →
      Executes p (.statement (.ifThen condition body)) (1 + n + n')
  | thenSkipped {condition : ExprId} {body : Block} {n : Nat} :
      Executes p (.expr condition) n → Executes p (.statement (.ifThen condition body)) (1 + n)
  | firstBranch {condition : ExprId} {body otherwise : Block} {n n' : Nat} :
      Executes p (.expr condition) n → Executes p (.block body) n' →
      Executes p (.statement (.ifElse condition body otherwise)) (1 + n + n')
  | otherBranch {condition : ExprId} {body otherwise : Block} {n n' : Nat} :
      Executes p (.expr condition) n → Executes p (.block otherwise) n' →
      Executes p (.statement (.ifElse condition body otherwise)) (1 + n + n')
  | loop {kind : LoopKind} {counter : LocalId} {bound : ExprId} {body : Block} {count n : Nat} :
      count ≤ p.iterationBound bound → Executes p (.iterations count bound body) n →
      Executes p (.statement (.loop kind counter bound body)) (2 + n)
  /-- The bound is evaluated once more than the body. -/
  | lastTest {bound : ExprId} {body : Block} {n : Nat} :
      Executes p (.expr bound) n → Executes p (.iterations 0 bound body) n
  | iterate {bound : ExprId} {body : Block} {count n n' n'' : Nat} :
      Executes p (.expr bound) n → Executes p (.block body) n' →
      Executes p (.iterations count bound body) n'' →
      Executes p (.iterations (count + 1) bound body) (n + (1 + n') + n'')
  | noStatements : Executes p (.block []) 0
  | moreStatements {s : Statement} {rest : Block} {n n' : Nat} :
      Executes p (.statement s) n → Executes p (.block rest) n' →
      Executes p (.block (s :: rest)) (n + n')

/-- What the code is estimated to cost, where the bounds of loops cost nothing. -/
def codeCost (p : Program) : Code → Nat
  | .expr e => p.exprCost e
  | .exprs es => (es.map p.exprCost).sum
  | .statement s => p.statementCost s
  | .block b => p.blockCost b
  | .iterations count _ body => count * Cost.add 1 (p.blockCost body)

def BoundedLoops (p : Program) : Code → Prop
  | .expr _ | .exprs _ => True
  | .statement s => ∃ budget, p.StatementWithin budget s
  | .block b => ∃ budget, p.BlockWithin budget b
  | .iterations _ bound body => p.BoundsLoop bound ∧ ∃ budget, p.BlockWithin budget body

variable {p : Program}

theorem blockCost_le_limit (p : Program) (b : Block) : p.blockCost b ≤ limit := by
  cases b with
  | nil => exact Nat.zero_le _
  | cons s rest =>
    rw [blockCost]
    exact add_le_limit ..

theorem steps_of_callee? {node : Node} {m : MethodId} (called : node.callee? = some m) :
    node.steps = 1 := by
  cases node with
  | call => rfl
  | _ => contradiction

/-! Methods are executed callees first, so each of them has an execution. -/

theorem exists_executes_expr (grounded : p.Grounded) {e : ExprId}
    (callees : ∀ k, p.Invokes e k → ∃ m ∈ p.methodsInOrder, m.method = k ∧
      ∃ n, p.Executes (.block m.body) n) : ∃ n, p.Executes (.expr e) n := by
  induction e using Nat.strong_induction_on with
  | _ e ih =>
    have operands (es : List ExprId) (parts : ∀ o ∈ es, p.Operand e o) :
        ∃ n, p.Executes (.exprs es) n := by
      induction es with
      | nil => exact ⟨0, .noExprs⟩
      | cons o rest ihRest =>
        have operand := parts o List.mem_cons_self
        obtain ⟨n, first⟩ := ih o (grounded e o operand) fun k ⟨o', path, called⟩ =>
          callees k ⟨o', .head operand path, called⟩
        obtain ⟨n', others⟩ := ihRest fun o' later => parts o' (List.mem_cons_of_mem _ later)
        exact ⟨n + n', .moreExprs first others⟩
    obtain ⟨n, done⟩ := operands (p.node e).operands fun o member => member
    cases called : (p.node e).callee? with
    | none => exact ⟨_, .node called done⟩
    | some k =>
      obtain ⟨m, declared, rfl, n', body⟩ := callees k ⟨e, .refl, called⟩
      exact ⟨_, .call called declared done body⟩

mutual

theorem exists_executes_statement (p : Program) :
    (s : Statement) → (∀ s' ∈ s.visit, ∀ e ∈ s'.roots, ∃ n, p.Executes (.expr e) n) →
      ∃ n, p.Executes (.statement s) n
  | .expression e, roots => by
    obtain ⟨n, value⟩ := roots (.expression e) List.mem_cons_self e List.mem_cons_self
    exact ⟨1 + n, .expression value⟩
  | .declare l e, roots => by
    obtain ⟨n, value⟩ := roots (.declare l e) List.mem_cons_self e List.mem_cons_self
    exact ⟨1 + n, .declare value⟩
  | .print e, roots => by
    obtain ⟨n, value⟩ := roots (.print e) List.mem_cons_self e List.mem_cons_self
    exact ⟨1 + n, .print value⟩
  | .returnValue e, roots => by
    obtain ⟨n, value⟩ := roots (.returnValue e) List.mem_cons_self e List.mem_cons_self
    exact ⟨1 + n, .returnValue value⟩
  | .returnVoid, _ => ⟨1, .returnVoid⟩
  | .ifThen condition body, roots => by
    obtain ⟨n, test⟩ :=
      roots (.ifThen condition body) List.mem_cons_self condition List.mem_cons_self
    exact ⟨1 + n, .thenSkipped test⟩
  | .ifElse condition body otherwise, roots => by
    obtain ⟨n, test⟩ :=
      roots (.ifElse condition body otherwise) List.mem_cons_self condition List.mem_cons_self
    obtain ⟨n', taken⟩ := exists_executes_block p body fun s' visited =>
      roots s' (List.mem_append_left _ (List.mem_cons_of_mem _ visited))
    exact ⟨1 + n + n', .firstBranch test taken⟩
  | .loop kind counter bound body, roots => by
    obtain ⟨n, test⟩ :=
      roots (.loop kind counter bound body) List.mem_cons_self bound List.mem_cons_self
    exact ⟨2 + n, .loop (Nat.zero_le _) (.lastTest test)⟩

theorem exists_executes_block (p : Program) :
    (b : Block) → b.All (fun e => ∃ n, p.Executes (.expr e) n) → ∃ n, p.Executes (.block b) n
  | [], _ => ⟨0, .noStatements⟩
  | s :: rest, roots => by
    obtain ⟨n, first⟩ := exists_executes_statement p s fun s' visited =>
      roots s' (List.mem_append_left _ visited)
    obtain ⟨n', others⟩ := exists_executes_block p rest fun s' visited =>
      roots s' (List.mem_append_right _ visited)
    exact ⟨n + n', .moreStatements first others⟩

end

theorem idxOf_lt_of_sublist {a b : MethodId} {ms : List MethodId} (distinct : ms.Nodup)
    (before : [b, a].Sublist ms) : ms.idxOf b < ms.idxOf a := by
  induction ms with
  | nil => contradiction
  | cons m rest ih =>
    obtain ⟨new, distinct⟩ := List.nodup_cons.1 distinct
    have other {x : MethodId} (later : x ∈ rest) : m ≠ x := fun same => new (same ▸ later)
    cases before with
    | cons _ before =>
      have later := before.subset
      rw [List.idxOf_cons_ne _ (other (later (by simp))), List.idxOf_cons_ne _ (other (later (by simp)))]
      exact Nat.succ_lt_succ (ih distinct before)
    | cons_cons _ before =>
      rw [List.idxOf_cons_self, List.idxOf_cons_ne _ (other (before.subset (by simp)))]
      exact Nat.succ_pos _

theorem NonRecursive.exists_executes (nonRecursive : p.NonRecursive) (grounded : p.Grounded)
    {m : MethodDeclaration} (declared : m ∈ p.methodsInOrder) :
    ∃ n, p.Executes (.block m.body) n := by
  have distinct : p.order.Nodup := nonRecursive.places.nodup_iff.2 List.nodup_range
  induction place : p.order.idxOf m.method using Nat.strong_induction_on generalizing m with
  | _ i ih =>
    refine exists_executes_block p m.body fun s visited e root =>
      exists_executes_expr grounded fun k invokes => ?_
    have first := nonRecursive.calleesFirst m.method k
      (nonRecursive.recorded m declared s visited e root k invokes)
    obtain ⟨d, declared', rfl⟩ := List.mem_map.1 (first.subset List.mem_cons_self)
    exact ⟨d, declared', rfl, ih _ (place ▸ idxOf_lt_of_sublist distinct first) declared' rfl⟩

/-- Up to the greatest word, no execution takes more steps than estimated. -/
theorem Executes.capped_le (grounded : p.Grounded)
    (costed : ∀ m ∈ p.methodsInOrder, p.CostedAs m.method m.body) {code : Code} {n : Nat}
    (executes : p.Executes code n) : p.BoundedLoops code → capped n ≤ p.codeCost code := by
  induction executes with
  | node callless _ ih =>
    intro _
    have operands := ih trivial
    simp only [codeCost] at operands ⊢
    rw [exprCost_eq (grounded _), Node.calleeCost, callless]
    unfold capped at operands ⊢
    dsimp only [Option.map_none, Option.getD_none]
    omega
  | call called member _ _ ih ihBody =>
    intro _
    obtain ⟨recorded, within⟩ := costed _ member
    have operands := ih trivial
    have body := ihBody ⟨_, within⟩
    simp only [codeCost] at operands body ⊢
    rw [exprCost_eq (grounded _), Node.calleeCost, called, steps_of_callee? called]
    dsimp only [Option.map_some, Option.getD_some]
    unfold capped at operands body ⊢
    omega
  | decided binary _ _ ih =>
    intro _
    have left := ih trivial
    simp only [codeCost] at left ⊢
    rw [exprCost_eq (grounded _), binary]
    simp only [Node.operands, List.map_cons, List.sum_cons]
    unfold capped at left ⊢
    omega
  | noExprs | noStatements => exact fun _ => Nat.zero_le _
  | moreExprs _ _ ih ihRest =>
    intro _
    have first := ih trivial
    have others := ihRest trivial
    simp only [codeCost] at first others ⊢
    rw [List.map_cons, List.sum_cons]
    unfold capped at first others ⊢
    omega
  | expression _ ih | declare _ ih | print _ ih | returnValue _ ih =>
    intro _
    have value := ih trivial
    simp only [codeCost] at value ⊢
    rw [statementCost]
    unfold capped at value
    unfold capped Cost.add
    omega
  | returnVoid => exact fun _ => Nat.le_refl _
  | thenTaken _ _ ih ihBody =>
    rintro ⟨budget, loops⟩
    rw [StatementWithin] at loops
    have condition := ih trivial
    have body := ihBody ⟨_, loops.2⟩
    simp only [codeCost] at condition body ⊢
    rw [statementCost]
    unfold capped at condition body
    unfold capped Cost.add
    omega
  | thenSkipped _ ih =>
    intro _
    have condition := ih trivial
    simp only [codeCost] at condition ⊢
    rw [statementCost]
    unfold capped at condition
    unfold capped Cost.add
    omega
  | firstBranch _ _ ih ihBody =>
    rintro ⟨budget, loops⟩
    rw [StatementWithin] at loops
    have condition := ih trivial
    have body := ihBody ⟨_, loops.2.1⟩
    simp only [codeCost] at condition body ⊢
    rw [statementCost]
    unfold capped at condition body
    unfold capped Cost.add
    omega
  | otherBranch _ _ ih ihBody =>
    rintro ⟨budget, loops⟩
    rw [StatementWithin] at loops
    have condition := ih trivial
    have body := ihBody ⟨_, loops.2.2⟩
    simp only [codeCost] at condition body ⊢
    rw [statementCost]
    unfold capped at condition body
    unfold capped Cost.add
    omega
  | @loop _ _ bound body count _ few _ ih =>
    rintro ⟨budget, loops⟩
    rw [StatementWithin] at loops
    obtain ⟨bounds, _, within⟩ := loops
    have iterations := ih ⟨bounds, _, within⟩
    simp only [codeCost] at iterations ⊢
    rw [statementCost, bounds.exprCost_eq_zero]
    have more := Nat.mul_le_mul_right (Cost.add 1 (p.blockCost body)) few
    have one : Cost.add 1 0 = 1 := rfl
    rw [one]
    unfold capped at iterations
    unfold capped Cost.mul
    unfold Cost.add at iterations more ⊢
    omega
  | lastTest _ ih =>
    rintro ⟨bounds, _⟩
    have test := ih trivial
    simp only [codeCost, bounds.exprCost_eq_zero] at test
    exact Nat.le_trans test (Nat.zero_le _)
  | @iterate _ body count _ _ _ _ _ _ ih ihBody ihRest =>
    rintro ⟨bounds, budget, within⟩
    have test := ih trivial
    have once := ihBody ⟨budget, within⟩
    have others := ihRest ⟨bounds, budget, within⟩
    simp only [codeCost, bounds.exprCost_eq_zero] at test
    simp only [codeCost] at once others ⊢
    rw [Nat.succ_mul]
    unfold capped at test once others ⊢
    unfold Cost.add at others ⊢
    omega
  | moreStatements _ _ ih ihRest =>
    rintro ⟨budget, loops⟩
    rw [BlockWithin] at loops
    have first := ih ⟨_, loops.1⟩
    have others := ihRest ⟨_, loops.2⟩
    simp only [codeCost] at first others ⊢
    rw [blockCost]
    unfold capped at first others
    unfold capped Cost.add
    omega

end Program

open Program

/-- The recorded cost of every method is that of its body, which can be executed, and bounds all
executions of it unless it is the greatest word. -/
theorem generated_cost_bounds_executions (catalog : Catalog) (seed : UInt64) (config : Config) :
    ∃ p c, generateWith catalog seed config = .ok (p, c) ∧ ∀ m ∈ p.methodsInOrder,
      (p.declared.method m.method).cost = p.blockCost m.body ∧
      (∃ n, p.Executes (.block m.body) n) ∧
      ∀ n, p.Executes (.block m.body) n →
        (p.declared.method m.method).cost = limit ∨ n ≤ (p.declared.method m.method).cost := by
  obtain ⟨p, c, done, generated⟩ := generateWith_ok catalog seed config
  refine ⟨p, c, done, fun m member => ?_⟩
  obtain ⟨recorded, within⟩ := generated.costed m member
  have possible := generated.nonRecursive.exists_executes generated.grounded member
  refine ⟨recorded, possible, fun n executes => ?_⟩
  have bounded : capped n ≤ p.blockCost m.body :=
    executes.capped_le generated.grounded generated.costed ⟨_, within⟩
  have greatest := p.blockCost_le_limit m.body
  rw [recorded]
  unfold capped at bounded
  omega

end JavaSmith
