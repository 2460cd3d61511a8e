import JavaSmith.Declarations
import JavaSmith.Context

/-! Blocks nest lexically: a local is visible from its declaration to the end of the block that
declared it. No name is used twice in a class, so there is no shadowing to track. Fields are visible
everywhere, except that static code sees static fields alone. -/
namespace JavaSmith

/-- The open blocks, innermost first, each with its locals in order of declaration. -/
structure Scope where
  blocks : List (List LocalId)
  deriving DecidableEq, Inhabited

namespace Scope

def empty : Scope := ⟨[[]]⟩

def enter (s : Scope) : Scope := ⟨[] :: s.blocks⟩

def leave (s : Scope) : Scope := ⟨s.blocks.tail⟩

def declare (s : Scope) (l : LocalId) : Scope :=
  match s.blocks with
  | [] => s
  | block :: outer => ⟨(block ++ [l]) :: outer⟩

/-- Runs code inside a block of its own. -/
def within (s : Scope) (body : Scope → α × Scope) : α × Scope :=
  let (result, inner) := body s.enter
  (result, inner.leave)

/-- Outermost block first. -/
def visible (s : Scope) : List LocalId := s.blocks.reverse.flatten

/-- A local from the blocks, inner ones first: after a block that holds an acceptable one a coin
decides whether to stop there or to look further out. -/
def drawLocal (accept : LocalId → Bool) (kept : Option LocalId) :
    List (List LocalId) → Random.Draw (Option LocalId)
  | [] => return kept
  | block :: outer => do
    match ← Random.chooseOneByOne (block.filter accept) with
    | none => drawLocal accept kept outer
    | some l =>
      if ← Random.coin then return some l else drawLocal accept (some l) outer

def visibleFields (d : Declarations) (isStatic : Bool) : List FieldId :=
  (List.range d.fields.size).filter fun id => !isStatic || (d.field id).modifiers.isStatic

def drawField (d : Declarations) (ctx : Context) (accept : Var → Bool) :
    Random.Draw (Option Var) :=
  Random.chooseOneByOne (((visibleFields d ctx.isStatic).map Var.field).filter accept)

/-- A visible variable that is accepted; a coin decides whether fields or locals come first. Where
null must not occur, no variable that could hold it is accepted. -/
def pick (s : Scope) (d : Declarations) (ctx : Context) (accept : Var → Bool) :
    Random.Draw (Option Var) := do
  let accept v := !(ctx.forbidsNull && (d.typeOf v).isNullable) && accept v
  let aLocal : Random.Draw (Option Var) := do
    let l ← drawLocal (fun l => accept (.localVar l)) none s.blocks
    return l.map .localVar
  let aField := drawField d ctx accept
  if ← Random.coin then
    match ← aField with
    | some v => return some v
    | none => aLocal
  else
    match ← aLocal with
    | some v => return some v
    | none => aField

def initializedOfType (s : Scope) (d : Declarations) (ctx : Context) (t : Ty) :
    Random.Draw (Option Var) :=
  s.pick d ctx fun v => d.isInitialized v && t.accepts (d.typeOf v)

def writableOfType (s : Scope) (d : Declarations) (ctx : Context) (t : Ty) :
    Random.Draw (Option Var) :=
  s.pick d ctx fun v => !d.isReadOnly v && t.accepts (d.typeOf v)

def writable (s : Scope) (d : Declarations) (ctx : Context) : Random.Draw (Option Var) :=
  s.pick d ctx fun v => !d.isReadOnly v

end Scope
end JavaSmith
