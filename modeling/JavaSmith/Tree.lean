import JavaSmith.Program
import JavaSmith.Literal

/-! Expressions as trees. A tree is read off the arena by following operand numbers downward; what is
said about an expression as a whole (its text, the number of its nodes, what it costs) is said about
its tree, by recursion on it. -/
namespace JavaSmith

inductive Tree where
  | constant (v : Value) (t : Ty)
  | read (v : Var)
  | call (callee : Callee) (args : List Tree)
  /-- A call on the value of an expression. -/
  | send (receiver : Tree) (callee : Callee) (args : List Tree)
  | construct (t : Ty) (args : List Tree)
  | newArray (t : Ty) (sizes : List Tree)
  | cast (t : Ty) (operand : Tree)
  | binary (op : Operator) (left right : Tree)
  | assign (v : Var) (source : Tree)
  | hole
  deriving Inhabited

/-- The expression with a given number. A number that is not smaller than that of the node it occurs
in refers to nothing. -/
def Program.tree (p : Program) (e : ExprId) : Tree :=
  let below (c : ExprId) : Tree := if _h : c < e then p.tree c else .hole
  match p.node e with
  | .constant v => .constant v (p.typeOf e)
  | .read v => .read v
  | .call callee none args => .call callee (args.map below)
  | .call callee (some receiver) args => .send (below receiver) callee (args.map below)
  | .construct t args => .construct t (args.map below)
  | .newArray t sizes => .newArray t (sizes.map below)
  | .cast t operand => .cast t (below operand)
  | .binary op left right => .binary op (below left) (below right)
  | .assign v source => .assign v (below source)
  | .hole => .hole
termination_by e

namespace Tree

/-- Why a tree has no text. -/
inductive Flaw where
  /-- A part of it has no value. -/
  | noValue
  /-- An array creation whose type is no array type. -/
  | notAnArray (t : Ty)
  deriving Inhabited

def commaSeparated (texts : List String) : String := String.intercalate ", " texts

def bracketed (texts : List String) : String := String.join (texts.map fun s => "[" ++ s ++ "]")

mutual

/-- The expression as it stands in a class body. Parentheses around casts, operators, assignments
and receivers leave nothing to precedence. Parts are written before the whole, from left to right,
and the first flaw met is the one told. -/
def text : Tree → Except Flaw String
  | constant v t => .ok (v.literal t)
  | read v => .ok v.name
  | call callee args => do
    let args ← textAll args
    let target := match callee.owner with
      | some owner => owner.spelling ++ "."
      | none => ""
    return target ++ callee.name ++ "(" ++ commaSeparated args ++ ")"
  | send receiver callee args => do
    let receiver ← receiver.text
    let args ← textAll args
    return "(" ++ receiver ++ ")." ++ callee.name ++ "(" ++ commaSeparated args ++ ")"
  | construct t args => do
    let args ← textAll args
    return "new " ++ t.spelling ++ "(" ++ commaSeparated args ++ ")"
  | newArray t sizes => do
    let sizes ← textAll sizes
    match t with
    | .array component _ => return "new " ++ component.spelling ++ bracketed sizes
    | _ => throw (.notAnArray t)
  | cast t operand => do
    let operand ← operand.text
    return castText t.spelling operand
  | binary op left right => do
    let left ← left.text
    let right ← right.text
    return "(" ++ left ++ " " ++ op.symbol ++ " " ++ right ++ ")"
  | assign v source => do
    let source ← source.text
    return "(" ++ v.name ++ " = " ++ source ++ ")"
  | hole => throw .noValue

def textAll : List Tree → Except Flaw (List String)
  | [] => .ok []
  | t :: rest => do
    let first ← t.text
    let others ← textAll rest
    return first :: others

end

mutual

/-- Nodes of the tree, one used twice counted twice. -/
def nodeCount : Tree → Nat
  | constant _ _ | read _ | hole => 1
  | call _ args | construct _ args => 1 + nodeCountAll args
  | newArray _ sizes => 1 + nodeCountAll sizes
  | send receiver _ args => 1 + receiver.nodeCount + nodeCountAll args
  | cast _ operand => 1 + operand.nodeCount
  | binary _ left right => 1 + left.nodeCount + right.nodeCount
  | assign _ source => 1 + source.nodeCount

def nodeCountAll : List Tree → Nat
  | [] => 0
  | t :: rest => t.nodeCount + nodeCountAll rest

end

end Tree
end JavaSmith
