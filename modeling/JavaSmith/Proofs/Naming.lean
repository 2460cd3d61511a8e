import JavaSmith.Proofs.RunCosts

/-! Names of a class, and what its calls keep to. Methods are numbered in order of declaration, behind
the entry, so no name is given twice; and from a static method only static ones are called. -/
namespace JavaSmith

open Generator

def numbered (letter : Char) (n : Nat) : String := .ofList (letter :: Nat.toDigits 10 n)

theorem numbered_inj {letter letter' : Char} {n n' : Nat} :
    numbered letter n = numbered letter' n' ↔ letter = letter' ∧ n = n' := by
  constructor
  · intro same
    have chars := String.ofList_injective same
    obtain ⟨rfl, digits⟩ := List.cons.inj chars
    have number := congrArg (Nat.ofDigitChars 10 · 0) digits
    simp only [Nat.ofDigitChars_ten_toDigits] at number
    exact ⟨rfl, number⟩
  · rintro ⟨rfl, rfl⟩
    rfl

theorem Var.name_field (id : FieldId) : (Var.field id).name = numbered 'f' (id + 1) := by
  apply String.toList_injective
  simp [name, numbered, toString]

theorem Var.name_localVar (id : LocalId) : (Var.localVar id).name = numbered 'v' (id + 1) := by
  apply String.toList_injective
  simp [name, numbered, toString]

def methodName : MethodId → String
  | 0 => "run"
  | m + 1 => numbered 'm' (m + 1)

theorem numbered_ne_run {letter : Char} (other : letter ≠ 'r') (n : Nat) :
    numbered letter n ≠ "run" := by
  intro same
  have chars : letter :: Nat.toDigits 10 n = ['r', 'u', 'n'] := String.ofList_injective same
  exact other (List.cons.inj chars).1

theorem methodName_injective : Function.Injective methodName := by
  rintro (_ | m) (_ | m') same
  · rfl
  · exact absurd same.symm (numbered_ne_run (by decide) _)
  · exact absurd same (numbered_ne_run (by decide) _)
  · exact (numbered_inj.1 same).2

theorem methodName_ne_numbered {letter : Char} (notMethod : letter ≠ 'm') (notEntry : letter ≠ 'r')
    (n : Nat) (m : MethodId) : numbered letter n ≠ methodName m := by
  cases m with
  | zero => exact numbered_ne_run notEntry n
  | succ m => exact fun same => notMethod (numbered_inj.1 same).1

namespace Declarations

theorem lt_size_of_isStatic {d : Declarations} {m : MethodId}
    (static : (d.method m).isStatic = true) : m < d.methods.size := by
  by_contra outside
  have none : d.methods[m]? = none := Array.getElem?_eq_none (Nat.le_of_not_lt outside)
  rw [method, none] at static
  contradiction

/-- Methods are named by their numbers, and calls are kept from static methods to others. -/
structure Orderly (d : Declarations) : Prop where
  sizes : d.calls.size = d.methods.size
  count : d.userMethodCount + 1 = d.methods.size
  names : ∀ m < d.methods.size, (d.method m).name = methodName m
  static : ∀ a b, d.calls.Calls a b → (d.method a).isStatic = true → (d.method b).isStatic = true

namespace Orderly

variable {d d' : Declarations}

theorem of_fixed (orderly : d.Orderly)
    (records : d'.methods.toList.map Method.fixed = d.methods.toList.map Method.fixed)
    (calls : d'.calls = d.calls) : d'.Orderly := by
  have size : d'.methods.size = d.methods.size := by
    simpa using congrArg List.length records
  have record (m : MethodId) : (d'.method m).fixed = (d.method m).fixed := by
    have same : (d'.methods.toList.map Method.fixed)[m]? =
        (d.methods.toList.map Method.fixed)[m]? := by rw [records]
    rw [List.getElem?_map, List.getElem?_map, Array.getElem?_toList, Array.getElem?_toList] at same
    rw [method, method, ← Option.getD_map Method.fixed, same, Option.getD_map]
  have static (m : MethodId) : (d'.method m).isStatic = (d.method m).isStatic :=
    (congrArg Method.isStatic (record m) :)
  refine ⟨?_, ?_, fun m inside => ?_, fun a b call => ?_⟩
  · rw [calls, size, orderly.sizes]
  · rw [userMethodCount_eq, records, ← userMethodCount_eq, size, orderly.count]
  · rw [size] at inside
    exact (congrArg Method.name (record m) :).trans (orderly.names m inside)
  · rw [calls] at call
    rw [static, static]
    exact orderly.static a b call

theorem of_same (orderly : d.Orderly) (methods : d'.methods = d.methods)
    (calls : d'.calls = d.calls) : d'.Orderly :=
  orderly.of_fixed (by rw [methods]) calls

theorem setCost (orderly : d.Orderly) (m : MethodId) (cost : Nat) : (d.setCost m cost).Orderly :=
  orderly.of_fixed (map_toList_modify _ _ fun _ => rfl) rfl

theorem addMethod (orderly : d.Orderly) (modifiers : Modifiers) (params : List Ty) (returns : Ty) :
    (d.addMethod modifiers params returns).Orderly := by
  have size : (d.addMethod modifiers params returns).methods.size = d.methods.size + 1 := by
    simp [Declarations.addMethod, appendMethod]
  have old {m : MethodId} (inside : m < d.methods.size) :
      (d.addMethod modifiers params returns).method m = d.method m :=
    method_appendMethod _ inside
  have new : ((d.addMethod modifiers params returns).method d.methods.size).name =
      numbered 'm' (d.userMethodCount + 1) := by
    apply String.toList_injective
    simp [Declarations.addMethod, appendMethod, method, numbered, toString]
  have count : (d.addMethod modifiers params returns).userMethodCount = d.userMethodCount + 1 := by
    simp [userMethodCount, Declarations.addMethod, appendMethod]
  refine ⟨?_, ?_, fun m inside => ?_, fun a b call static => ?_⟩
  · exact (CallGraph.size_addMethod _).trans (by rw [size, orderly.sizes])
  · rw [count, size, orderly.count]
  · rw [size] at inside
    rcases Nat.lt_or_eq_of_le (Nat.le_of_lt_succ inside) with before | rfl
    · rw [old before]
      exact orderly.names m before
    · rw [new, ← orderly.count]
      rfl
  · have call : d.calls.Calls a b := CallGraph.calls_addMethod d.calls ▸ call
    rw [old (orderly.sizes ▸ CallGraph.lt_size_of_calls call)] at static
    have callee := orderly.static a b call static
    rwa [old (lt_size_of_isStatic callee)]

theorem addCallEdge (orderly : d.Orderly) {caller callee : MethodId}
    (recorded : d.addCallEdge caller callee = .ok d') : d'.Orderly := by
  obtain ⟨_, static, g, added, rfl⟩ := addCallEdge_eq_ok_iff.1 recorded
  refine ⟨(CallGraph.size_addEdge? added).trans orderly.sizes, orderly.count, orderly.names,
    fun a b call => ?_⟩
  rcases CallGraph.eq_of_calls_addEdge? added call with old | ⟨rfl, rfl⟩
  · exact orderly.static a b old
  · exact static

end Orderly
end Declarations

open Program

/-- A run keeps names and calls in order. -/
theorem Run.orderly {task : Task} {p p' : Program} {r : task.Outcome} (run : Run task p r p') :
    p.declared.Orderly → p'.declared.Orderly := by
  induction run with
  | reuse | argumentReuse | boundReuse | boundLiteral | argumentDirect | argumentsNil | endingVoid
  | noStatement | blockNil | noDetour => exact id
  | exprCall _ _ _ _ ih | argumentExpr _ _ ih | calleeNew _ _ _ ih | endingValue _ _ ih
  | print _ _ _ _ ih | callStatement _ _ _ _ ih | detourMethod _ _ _ _ ih
  | detourBuilder _ _ _ _ ih | cast _ _ _ _ _ ih | build _ _ _ _ ih => exact ih
  | @assign _ _ _ _ v _ _ _ _ _ _ _ _ ih | @assignStatement _ _ _ v _ _ _ _ _ _ ih =>
    intro orderly
    refine (ih orderly).of_same ?_ ?_
    · cases v <;> rfl
    · cases v <;> rfl
  | @binary _ t _ _ p'' use left right _ _ _ _ _ ih ih' =>
    intro orderly
    rw [(p''.declared_applied use t left right).1]
    exact ih' (ih orderly)
  | exprAfter _ _ ih ih' | argumentsCons _ _ ih ih' | statementAfter _ _ _ ih ih'
  | blockCons _ _ ih ih' | detourTrans _ _ ih ih' | ifThen _ _ _ _ _ _ _ ih ih'
  | detourCall _ _ _ _ _ _ ih ih' | call _ _ _ _ _ ih ih' => exact fun orderly => ih' (ih orderly)
  | calleeFound _ _ _ recorded => exact fun orderly => orderly.addCallEdge recorded
  | @method _ _ _ _ _ _ o _ _ _ _ _ _ ih ih' =>
    intro orderly
    have opened : o.program.declared.Orderly :=
      ((orderly.addMethod _ _ _).addCallEdge o.recorded).of_same
        (methods_addParameters (_ : Program) o.params) (sameMethods_addParameters _ o.params).calls
    exact (ih' (ih opened)).setCost _ _
  | declare _ _ _ _ _ ih | declareField _ _ _ _ _ ih =>
    exact fun orderly => (ih orderly).of_same rfl rfl
  | ifElse _ _ _ _ _ _ _ _ _ _ ih ih' ih'' => exact fun orderly => ih'' (ih' (ih orderly))
  | loop _ _ _ _ _ _ counter _ _ ih ih' =>
    subst counter
    exact fun orderly => ih' ((ih orderly).of_same rfl rfl)

end JavaSmith
