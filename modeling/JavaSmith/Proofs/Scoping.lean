import JavaSmith.Proofs.Nesting
import JavaSmith.Proofs.RunSound

/-! Lexical scope. A block evaluates each of its expressions with the locals that are declared before it
in the same block or around it; the counter of a loop is in scope in its body alone. What is in scope
stays so as the class grows. -/
namespace JavaSmith

open Relation

def Node.var? : Node → Option Var
  | .read v | .assign v _ => some v
  | _ => none

namespace Program

/-- The expression has been made, and all its nodes have the property. -/
def Throughout (p : Program) (P : Node → Prop) (e : ExprId) : Prop :=
  ∀ o, ReflTransGen p.Operand e o → o < p.arena.size ∧ P (p.node o)

def UsesOnly (p : Program) (Q : Var → Prop) (e : ExprId) : Prop :=
  p.Throughout (fun node => ∀ v, node.var? = some v → Q v) e

variable {p p' : Program} {P : Node → Prop} {Q Q' : Var → Prop} {e : ExprId}

namespace Throughout

theorem imp {P' : Node → Prop} (whole : p.Throughout P e) (h : ∀ node, P node → P' node) :
    p.Throughout P' e :=
  fun o path => (whole o path).imp_right (h _)

theorem later (whole : p.Throughout P e) (h : p.Extends p') : p'.Throughout P e := by
  intro o path
  have old : ReflTransGen p.Operand e o := by
    induction path with
    | refl => exact .refl
    | @tail b _ _ operand ih =>
      refine ih.tail ?_
      unfold Operand at operand ⊢
      rwa [h.node (whole b ih).1] at operand
  obtain ⟨inside, holds⟩ := whole o old
  exact ⟨Nat.lt_of_lt_of_le inside h.arena_size, (h.node inside).symm ▸ holds⟩

theorem add {node : Node} (t : Ty) (operands : ∀ o ∈ node.operands, p.Throughout P o)
    (own : P node) : (p.add node t).2.Throughout P (p.add node t).1 := by
  have new : (p.add node t).2.node (p.add node t).1 = node := p.node_add node t
  intro o path
  rcases path.cases_head with rfl | ⟨first, operand, rest⟩
  · exact ⟨by simp [Program.add], new.symm ▸ own⟩
  · unfold Operand at operand
    rw [new] at operand
    exact (operands first operand).later (p.extends_add node t) o rest

theorem addCast (whole : p.Throughout P e) (t : Ty) (own : P (.cast t e)) :
    (p.addCast t e).2.Throughout P (p.addCast t e).1 :=
  add t (fun _ member => List.mem_singleton.1 member ▸ whole) own

theorem applied {left right : ExprId} (whole : p.Throughout P left)
    (whole' : p.Throughout P right) (casts : ∀ t o, P (.cast t o))
    (operators : ∀ op l r, P (.binary op l r)) (use : Generator.OperatorUse) (t : Ty) :
    (p.applied use t left right).2.Throughout P (p.applied use t left right).1 := by
  refine applied_induction (R := fun p e => p.Throughout P e) ?_ ?_ whole whole' use t
  · exact fun p t e whole =>
      ⟨whole.addCast t (casts t e), fun o kept => kept.later (extends_add ..)⟩
  · refine fun p op t l r first second => add t (fun o member => ?_) (operators op l r)
    rcases List.mem_cons.1 member with rfl | last
    · exact first
    · exact List.mem_singleton.1 last ▸ second

end Throughout

namespace UsesOnly

theorem imp (uses : p.UsesOnly Q e) (h : ∀ v, Q v → Q' v) : p.UsesOnly Q' e :=
  Throughout.imp uses fun _ holds v same => h v (holds v same)

theorem later (uses : p.UsesOnly Q e) (h : p.Extends p') : p'.UsesOnly Q e :=
  Throughout.later uses h

theorem add {node : Node} (t : Ty) (operands : ∀ o ∈ node.operands, p.UsesOnly Q o)
    (own : ∀ v, node.var? = some v → Q v) : (p.add node t).2.UsesOnly Q (p.add node t).1 :=
  Throughout.add t operands own

theorem addOther {node : Node} (t : Ty) (operands : ∀ o ∈ node.operands, p.UsesOnly Q o)
    (none : node.var? = none) : (p.add node t).2.UsesOnly Q (p.add node t).1 :=
  add t operands fun v same => by rw [none] at same; contradiction

theorem addRead {v : Var} (own : Q v) : (p.addRead v).2.UsesOnly Q (p.addRead v).1 :=
  add _ (fun o none => by contradiction) fun _ same => Option.some.inj same ▸ own

theorem addAssignment (uses : p.UsesOnly Q e) {v : Var} (own : Q v) :
    (p.addAssignment v e).2.UsesOnly Q (p.addAssignment v e).1 := by
  refine add (p := { p with declared := p.declared.setInitialized v }) _ (fun o member => ?_)
    fun _ same => Option.some.inj same ▸ own
  rw [List.mem_singleton.1 member]
  exact uses.later (p.extends_setInitialized v)

theorem addCast (uses : p.UsesOnly Q e) (t : Ty) :
    (p.addCast t e).2.UsesOnly Q (p.addCast t e).1 :=
  Throughout.addCast uses t fun v same => by contradiction

theorem applied {left right : ExprId} (uses : p.UsesOnly Q left) (uses' : p.UsesOnly Q right)
    (use : Generator.OperatorUse) (t : Ty) :
    (p.applied use t left right).2.UsesOnly Q (p.applied use t left right).1 :=
  Throughout.applied uses uses' (fun _ _ _ same => by contradiction)
    (fun _ _ _ _ same => by contradiction) use t

end UsesOnly
end Program

namespace Declarations

/-- Variables in scope: the locals, and the fields, static ones alone in static code. -/
def InScope (d : Declarations) (isStatic : Bool) (locals : List LocalId) : Var → Prop
  | .field id => id < d.fields.size ∧ (isStatic = true → (d.field id).modifiers.isStatic = true)
  | .localVar l => l ∈ locals

/-- Fields declared before the field, static ones alone if it is static. -/
def Precedes (d : Declarations) (id : FieldId) : Var → Prop
  | .field k => k < id ∧
    ((d.field id).modifiers.isStatic = true → (d.field k).modifiers.isStatic = true)
  | .localVar _ => False

end Declarations

def Statement.declares : Statement → List LocalId
  | .declare l _ => [l]
  | _ => []

def Block.scopeAfter (b : Block) (locals : List LocalId) : List LocalId :=
  b.foldl (fun locals s => s.declares ++ locals) locals

mutual

/-- Every expression that the statement evaluates has the property with the locals in scope there. -/
def Statement.Lexical (P : List LocalId → ExprId → Prop) (locals : List LocalId) :
    Statement → Prop
  | .expression e | .declare _ e | .print e | .returnValue e => P locals e
  | .returnVoid => True
  | .ifThen condition body => P locals condition ∧ Block.Lexical P locals body
  | .ifElse condition body otherwise =>
    P locals condition ∧ Block.Lexical P locals body ∧ Block.Lexical P locals otherwise
  | .loop _ counter bound body => P locals bound ∧ Block.Lexical P (counter :: locals) body

def Block.Lexical (P : List LocalId → ExprId → Prop) (locals : List LocalId) : Block → Prop
  | [] => True
  | s :: rest => s.Lexical P locals ∧ Block.Lexical P (s.declares ++ locals) rest

end

section Lexical

variable {P P' : List LocalId → ExprId → Prop}

mutual

theorem Statement.Lexical.imp {s : Statement} {locals locals' : List LocalId} (lexical : s.Lexical P locals)
    (h : ∀ ls ls' e, ls ⊆ ls' → P ls e → P' ls' e) (more : locals ⊆ locals') :
    s.Lexical P' locals' := by
  cases s with
  | expression e | declare l e | print e | returnValue e =>
    rw [Statement.Lexical] at lexical ⊢
    exact h _ _ _ more lexical
  | returnVoid => trivial
  | ifThen condition body =>
    rw [Statement.Lexical] at lexical ⊢
    exact ⟨h _ _ _ more lexical.1, lexical.2.imp h more⟩
  | ifElse condition body otherwise =>
    rw [Statement.Lexical] at lexical ⊢
    exact ⟨h _ _ _ more lexical.1, lexical.2.1.imp h more, lexical.2.2.imp h more⟩
  | loop kind counter bound body =>
    rw [Statement.Lexical] at lexical ⊢
    exact ⟨h _ _ _ more lexical.1, lexical.2.imp h (List.cons_subset_cons _ more)⟩

theorem Block.Lexical.imp {b : Block} {locals locals' : List LocalId} (lexical : Block.Lexical P locals b)
    (h : ∀ ls ls' e, ls ⊆ ls' → P ls e → P' ls' e) (more : locals ⊆ locals') :
    Block.Lexical P' locals' b := by
  cases b with
  | nil => trivial
  | cons s rest =>
    rw [Block.Lexical] at lexical ⊢
    refine ⟨lexical.1.imp h more, lexical.2.imp h fun l member => ?_⟩
    exact (List.mem_append.1 member).elim (List.mem_append_left _)
      fun old => List.mem_append_right _ (more old)

end

variable {locals : List LocalId}

theorem Block.lexical_append {a b : Block} :
    Block.Lexical P locals (a ++ b) ↔
      Block.Lexical P locals a ∧ Block.Lexical P (a.scopeAfter locals) b := by
  induction a generalizing locals with
  | nil => simp [Block.Lexical, Block.scopeAfter]
  | cons s rest ih =>
    rw [List.cons_append, Block.Lexical, Block.Lexical, ih, and_assoc]
    rfl

theorem Block.lexical_singleton {s : Statement} :
    Block.Lexical P locals [s] ↔ s.Lexical P locals := by
  simp [Block.Lexical]

end Lexical

theorem Scope.visible_after_subset {b : Block} {s : Scope} {locals : List LocalId}
    (h : s.visible ⊆ locals) : (b.foldl Generator.after s).visible ⊆ b.scopeAfter locals := by
  induction b generalizing s locals with
  | nil => exact h
  | cons first rest ih =>
    refine ih (fun k visible => ?_)
    cases first with
    | declare l e =>
      rcases mem_visible_declare visible with rfl | old
      · exact List.mem_cons_self
      · exact List.mem_cons_of_mem _ (h old)
    | _ => exact h visible

end JavaSmith
