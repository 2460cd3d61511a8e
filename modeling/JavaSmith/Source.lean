import JavaSmith.Tree

/-! The class as source text. Every statement is a list of lines; the first expression that has no
text, in the order of writing, makes the whole class unwritable and names the method it is in. -/
namespace JavaSmith

def indented (level : Nat) (line : String) : String :=
  String.join (List.replicate level "    ") ++ line

def opening (header : String) : String := header ++ " \x7b"

def closing : String := "\x7d"

namespace Program

/-- Stands for the name of a method where a field initializer cannot be written. -/
def fieldsPlace : String := "<fields>"

def faultOf (p : Program) (place : String) : Tree.Flaw → Fault
  | .noValue => .emission p.className place
  | .notAnArray t => .breach (.arrayInit t)

def treeText (p : Program) (place : String) (t : Tree) : Except Fault String :=
  match t.text with
  | .ok text => .ok text
  | .error flaw => .error (p.faultOf place flaw)

def exprText (p : Program) (place : String) (e : ExprId) : Except Fault String :=
  p.treeText place (p.tree e)

def declarationText (modifiers : Modifiers) (t : Ty) (name value : String) : String :=
  modifiers.keywords ++ t.spelling ++ " " ++ name ++ " = " ++ value ++ ";"

/-- An assignment stands as a statement without the parentheses of an expression. -/
def expressionStatement (p : Program) (place : String) (t : Tree) : Except Fault String :=
  match t with
  | .assign v source => do
    let source ← p.treeText place source
    return v.name ++ " = " ++ source ++ ";"
  | other => do
    let text ← p.treeText place other
    return text ++ ";"

/-- Lines before and after the body of a loop. The counter of a `while` or `do` loop is declared in
front of it and stepped first in its body. -/
def loopFrame (kind : LoopKind) (level : Nat) (counter bound : String) :
    List String × List String :=
  let step := indented (level + 1) (counter ++ "++;")
  let start := indented level ("int " ++ counter ++ " = 0;")
  match kind with
  | .forLoop =>
    ([indented level (opening
      s!"for (int {counter} = 0; {counter} < {bound}; {counter}++)")], [indented level closing])
  | .whileLoop =>
    ([start, indented level (opening s!"while ({counter} < {bound})"), step],
      [indented level closing])
  | .doWhileLoop =>
    ([start, indented level (opening "do"), step],
      [indented level (closing ++ s!" while ({counter} < {bound});")])

mutual

def statementLines (p : Program) (place : String) (level : Nat) :
    Statement → Except Fault (List String)
  | .expression e => do
    let text ← p.expressionStatement place (p.tree e)
    return [indented level text]
  | .declare l e => do
    let value ← p.exprText place e
    let record := p.declared.localVar l
    return [indented level
      (declarationText record.modifiers record.type (Var.localVar l).name value)]
  | .print e => do
    let value ← p.exprText place e
    return [indented level ("System.out.println(" ++ value ++ ");")]
  | .ifThen condition body => do
    let condition ← p.exprText place condition
    let body ← p.blockLines place (level + 1) body
    return indented level (opening ("if (" ++ condition ++ ")")) :: body ++ [indented level closing]
  | .ifElse condition body otherwise => do
    let condition ← p.exprText place condition
    let body ← p.blockLines place (level + 1) body
    let otherwise ← p.blockLines place (level + 1) otherwise
    return indented level (opening ("if (" ++ condition ++ ")")) :: body ++
      indented level (opening (closing ++ " else")) :: otherwise ++ [indented level closing]
  | .loop kind counter bound body => do
    let bound ← p.exprText place bound
    let body ← p.blockLines place (level + 1) body
    let (before, after) := loopFrame kind level (Var.localVar counter).name bound
    return before ++ body ++ after
  | .returnVoid => return [indented level "return;"]
  | .returnValue e => do
    let value ← p.exprText place e
    return [indented level ("return " ++ value ++ ";")]

def blockLines (p : Program) (place : String) (level : Nat) : Block → Except Fault (List String)
  | [] => return []
  | s :: rest => do
    let first ← p.statementLines place level s
    let others ← p.blockLines place level rest
    return first ++ others

end

def fieldLine (p : Program) (f : FieldDeclaration) : Except Fault String := do
  let value ← p.exprText fieldsPlace f.initializer
  let record := p.declared.field f.field
  return indented 1 (declarationText record.modifiers record.type (Var.field f.field).name value)

def methodLines (p : Program) (m : MethodDeclaration) : Except Fault (List String) := do
  let record := p.declared.method m.method
  let params := m.params.map fun l =>
    (p.declared.localVar l).type.spelling ++ " " ++ (Var.localVar l).name
  let header := record.modifiers.keywords ++ record.returns.spelling ++ " " ++ record.name ++
    "(" ++ Tree.commaSeparated params ++ ")"
  let body ← p.blockLines record.name 2 m.body
  return "" :: indented 1 (opening header) :: body ++ [indented 1 closing]

def rerunCommand (p : Program) : String :=
  s!"jvmfuzz generate --seed {p.seed} --class-name {p.className}" ++
  String.join (p.knobs.changed.map fun (k, value) => s!" --knob {k.name}={value}")

/-- A new object of the class runs its entry method. -/
def mainLines (p : Program) : List String :=
  ["", indented 1 (opening "public static void main(String[] args)"),
   indented 2 s!"new {p.className}().{(p.declared.method p.entry.method).name}();",
   indented 1 closing, closing]

def unlines (lines : List String) : String := String.join (lines.map (· ++ "\n"))

def source (p : Program) : Except Fault String := do
  let fields ← p.fields.toList.mapM p.fieldLine
  let methods ← p.methodsInOrder.mapM p.methodLines
  return unlines (["// To reproduce:", "// " ++ p.rerunCommand,
    opening ("public class " ++ p.className)] ++ fields ++ methods.flatten ++ p.mainLines)

end Program
end JavaSmith
