import Mathlib.Data.Prod.Lex
import JavaSmith.Proofs.Refines

/-! Activations of the generators. The body of an activation is the generator with every activation it
starts handed to it, so its recursion is open: what the generators do is what their bodies do with the
generators themselves. Each activation has a measure of what is left to spend. -/
namespace JavaSmith

open Generator

inductive Activation where
  | block (site : Site) (length : Nat)
  | statement (site : Site)
  | controlFlow (site : Site)
  | method (site : Site) (caller : MethodId) (wanted : Option Ty)
  | userCall (site : Site) (wanted : Option Ty)
  | expr (site : Site) (t : Ty)
  | operator (site : Site) (t : Ty)
  | cast (site : Site) (t : Ty)
  | builders (site : Site) (t : Ty)
  | argument (site : Site) (t : Ty) (forbidNull : Bool)

abbrev Activation.Result : Activation → Type
  | block _ _ | statement _ => Block
  | controlFlow _ => Option Block
  | method _ _ _ => MethodId
  | userCall _ _ | argument _ _ _ => Option ExprId
  | expr _ _ | operator _ _ | cast _ _ | builders _ _ => ExprId

abbrev Performer := (a : Activation) → Gen a.Result

namespace Performer

variable (g : Performer)

def exprs : ExprGen := fun site t => g (.expr site t)

def methods : MethodGen := fun site caller wanted => g (.method site caller wanted)

def blocks : BlockGen := fun site length => g (.block site length)

def arguments (site : Site) : ArgumentGen := fun t forbidNull => g (.argument site t forbidNull)

def parts : Parts := ⟨g.exprs, g.methods⟩

end Performer

namespace Activation

/-- The generator of the activation, which leaves those that it starts to `g`. -/
def body (g : Performer) : (a : Activation) → Gen a.Result
  | block _ 0 => return []
  | block site (n + 1) => do
    let first ← g (statement site.atStatement)
    let rest ← g (block (site.afterBlock first) n)
    return first ++ rest
  | statement site => place g.parts (g (userCall site none)) (g (controlFlow site)) site
  | controlFlow site => Generator.controlFlow g.parts g.blocks site
  | method site caller wanted => methodStep g.blocks g.exprs site caller wanted
  | userCall site wanted => Generator.userCall g.methods (g.arguments site) site wanted
  | expr site t =>
    choice (g (userCall site (some t))) (g (operator site t)) (g (cast site t)) (g (builders site t))
      g.exprs site t
  | operator site t => binaryOp g.exprs site t
  | cast site t => castFrom g.exprs site t
  | builders site t => fromBuilders (g.arguments site) site t
  | argument site t forbidNull => Generator.argument g.exprs site t forbidNull

/-- The generators of a class to which the given number of methods may be added. -/
def perform (n : Nat) : Performer
  | block site length => Generator.block (partsOf (methodAt n)) site length
  | statement site =>
    Generator.statement (partsOf (methodAt n)) (Generator.block (partsOf (methodAt n))) site
  | controlFlow site =>
    Generator.controlFlow (partsOf (methodAt n)) (Generator.block (partsOf (methodAt n))) site
  | method site caller wanted => methodAt n site caller wanted
  | userCall site wanted =>
    Generator.userCall (methodAt n) (Generator.argument (Generator.expr (methodAt n)) site) site wanted
  | expr site t => Generator.expr (methodAt n) site t
  | operator site t => binaryOp (Generator.expr (methodAt n)) site t
  | cast site t => castFrom (Generator.expr (methodAt n)) site t
  | builders site t =>
    fromBuilders (Generator.argument (Generator.expr (methodAt n)) site) site t
  | argument site t forbidNull => Generator.argument (Generator.expr (methodAt n)) site t forbidNull

end Activation

def Program.methodsLeft (p : Program) : Nat := p.knobs.get .maxMethods - p.declared.userMethodCount

namespace Activation

def run : Performer := fun a s => perform s.program.methodsLeft a s

/-! Bodies that are handed what does the same do the same. -/

theorem refines_body {g g' : Performer} (h : ∀ a, Refines (g a) (g' a)) (a : Activation) :
    Refines (a.body g) (a.body g') := by
  have parts : g.parts.Refine g'.parts := ⟨fun _ _ => h _, fun _ _ _ => h _⟩
  cases a with
  | block site length =>
    cases length with
    | zero => exact .refl _
    | succ length => exact .bind (h _) fun first => .bindLeft (h _)
  | statement site => exact refines_place parts (h _) fun _ => h _
  | controlFlow site => exact refines_controlFlow parts fun _ _ _ => h _
  | method site caller wanted => exact refines_methodStep (fun _ _ => h _) fun _ _ => h _
  | userCall site wanted => exact refines_userCall (fun _ => h _) fun _ => h _
  | expr site t =>
    exact refines_choice (h _) (fun _ => h _) (fun _ => h _) (h _) fun _ _ _ _ => h _
  | operator site t => exact refines_binaryOp fun _ _ _ => h _
  | cast site t => exact refines_castFrom fun _ _ _ => h _
  | builders site t => exact refines_fromBuilders fun _ _ => h _
  | argument site t forbidNull => exact refines_argument forbidNull fun _ _ _ _ => h _

theorem refines_perform {n n' : Nat} (le : n ≤ n') (a : Activation) :
    Refines (perform n a) (perform n' a) := by
  have methods := refines_methodAt le
  have parts := Parts.refine_partsOf methods
  have exprs (site : Site) (t : Ty) := parts.expr site t
  have blocks (site : Site) (length : Nat) := refines_blockAt parts site.ctx.blockLevels site length
  have arguments (site : Site) (t : Ty) (forbidNull : Bool) :
      Refines (Generator.argument (Generator.expr (methodAt n)) site t forbidNull)
        (Generator.argument (Generator.expr (methodAt n')) site t forbidNull) :=
    refines_argument forbidNull fun _ inner t _ => exprs inner t
  cases a with
  | block site length => exact blocks site length
  | statement site => exact refines_statement parts fun _ inner length _ => blocks inner length
  | controlFlow site => exact refines_controlFlow parts fun inner length _ => blocks inner length
  | method site caller wanted => exact methods site caller wanted
  | userCall site wanted =>
    exact refines_userCall (fun caller => methods site caller wanted) fun t => arguments site t false
  | expr site t => exact exprs site t
  | operator site t => exact refines_binaryOp fun inner t _ => exprs inner t
  | cast site t => exact refines_castFrom fun inner t _ => exprs inner t
  | builders site t => exact refines_fromBuilders fun t forbidNull => arguments site t forbidNull
  | argument site t forbidNull => exact arguments site t forbidNull

def opens : Activation → Nat
  | method _ _ _ => 1
  | _ => 0

/-- The generators do what their bodies do with them. -/
theorem refines_body_perform (n : Nat) (a : Activation) :
    Refines (a.body (perform n)) (perform (n + a.opens) a) := by
  cases a with
  | block site length =>
    cases length with
    | zero =>
      refine .of_eq ?_
      change _ = blockAt (partsOf (methodAt n)) site.ctx.blockLevels site 0
      cases site.ctx.blockLevels <;> rfl
    | succ length => exact refines_step_block (partsOf (methodAt n)) site length
  | expr site t => exact refines_step_expr (methodAt n) site t
  | statement | controlFlow | method | userCall | operator | cast | builders | argument =>
    exact .refl _

end Activation

/-! What is left to spend. -/

/-- Numbers that count in this order. -/
abbrev Measure := ℕ ×ₗ ℕ ×ₗ ℕ ×ₗ ℕ

namespace Measure

def of (methods blocks exprs rest : Nat) : Measure :=
  toLex (methods, toLex (blocks, toLex (exprs, rest)))

variable {m m' b b' e e' r r' : Nat}

theorem of_lt_of_iff : of m b e r < of m' b' e' r' ↔
    m < m' ∨ m = m' ∧ (b < b' ∨ b = b' ∧ (e < e' ∨ e = e' ∧ r < r')) := by
  simp only [of, Prod.Lex.toLex_lt_toLex]

theorem of_lt (le : m ≤ m') (less : b < b' ∨ b = b' ∧ (e < e' ∨ e = e' ∧ r < r')) :
    of m b e r < of m' b' e' r' :=
  of_lt_of_iff.2 ((Nat.lt_or_eq_of_le le).imp_right fun same => ⟨same, less⟩)

theorem methods_le (less : of m b e r < of m' b' e' r') : m ≤ m' := by
  rcases of_lt_of_iff.1 less with fewer | ⟨same, _⟩
  · exact Nat.le_of_lt fewer
  · exact Nat.le_of_eq same

end Measure

/-- What the activation may still spend in the class. A new method comes with all levels of blocks and of
expressions, a field with all levels of expressions, so methods count before blocks and blocks before
expressions; outside the blocks, those that are left do not count. -/
def Activation.measure (p : Program) : Activation → Measure
  | block site length => .of p.methodsLeft (site.ctx.blockLevels + 1) 0 (length + 1)
  | statement site => .of p.methodsLeft (site.ctx.blockLevels + 1) 0 1
  | controlFlow site => .of p.methodsLeft (site.ctx.blockLevels + 1) 0 0
  | method _ _ _ => .of p.methodsLeft 0 0 0
  | expr site _ => .of p.methodsLeft 0 site.ctx.exprLevels 3
  | userCall site _ | operator site _ | cast site _ | builders site _ =>
    .of p.methodsLeft 0 site.ctx.exprLevels 2
  | argument site _ _ => .of p.methodsLeft 0 site.ctx.exprLevels 1

end JavaSmith
