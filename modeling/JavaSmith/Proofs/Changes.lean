import JavaSmith.Proofs.Growth

/-! What can be done to the declarations of a class, in any order. Nothing that was declared is lost, a
variable that holds a value goes on holding one, and the call graph stays exact. A call is the one
change that can be refused. -/
namespace JavaSmith

inductive Change where
  | field (modifiers : Modifiers) (t : Ty)
  | localVar (modifiers : Modifiers) (t : Ty)
  | counter
  | method (modifiers : Modifiers) (params : List Ty) (returns : Ty)
  | entry
  | initialized (v : Var)
  | cost (m : MethodId) (cost : Nat)
  | call (caller callee : MethodId)

namespace Declarations

def Knows (d : Declarations) : Change → Prop
  | .initialized v => d.Declares v
  | .cost m _ => m < d.methods.size
  | .call caller callee => caller < d.methods.size ∧ callee < d.methods.size
  | _ => True

def change (d : Declarations) : Change → Except Breach Declarations
  | .field modifiers t => .ok (d.addField modifiers t)
  | .localVar modifiers t => .ok (d.addLocal modifiers t)
  | .counter => .ok d.addCounter
  | .method modifiers params returns => .ok (d.addMethod modifiers params returns)
  | .entry => .ok d.addEntry
  | .initialized v => .ok (d.setInitialized v)
  | .cost m cost => .ok (d.setCost m cost)
  | .call caller callee => d.addCallEdge caller callee

inductive Reachable : Declarations → Prop where
  | empty : Reachable .empty
  | change {d d' : Declarations} {c : Change} :
    Reachable d → d.Knows c → d.change c = .ok d' → Reachable d'

variable {d d' : Declarations} {c : Change}

theorem Tracks.of_same (tracks : d.Tracks) (calls : d'.calls = d.calls)
    (size : d'.methods.size = d.methods.size) : d'.Tracks where
  exact := calls ▸ tracks.exact
  sizes := by rw [calls, size, tracks.sizes]

theorem Tracks.change (tracks : d.Tracks) (known : d.Knows c) (changed : d.change c = .ok d') :
    d'.Tracks := by
  cases c with
  | method modifiers params returns =>
    cases changed
    exact tracks.appendMethod _
  | entry =>
    cases changed
    exact tracks.appendMethod _
  | call caller callee => exact tracks.addCallEdge known.1 known.2 changed
  | field | localVar | counter =>
    cases changed
    exact tracks.of_same rfl rfl
  | initialized v =>
    cases changed
    cases v <;> exact tracks.of_same rfl rfl
  | cost m cost =>
    cases changed
    exact tracks.of_same rfl Array.size_modify

theorem flag_push {α : Type} [Inhabited α] (flag : α → Bool) {xs : Array α} {a : α} {i : Nat}
    (inside : i < xs.size) (raised : flag (xs[i]?.getD default) = true) :
    flag ((xs.push a)[i]?.getD default) = true := by
  have same := getD_of_prefix (prefix_map_push flag xs a) inside default
  rwa [same]

theorem flag_modify {α : Type} [Inhabited α] (flag : α → Bool) {f : α → α} {xs : Array α}
    {i j : Nat} (raises : ∀ a, flag (f a) = true) (raised : flag (xs[j]?.getD default) = true) :
    flag ((xs.modify i f)[j]?.getD default) = true := by
  rw [Array.getElem?_modify]
  split
  · cases found : xs[j]? with
    | none => rwa [found] at raised
    | some a => exact raises a
  · exact raised

theorem isInitialized_setInitialized {v w : Var} (initialized : d.isInitialized w = true) :
    (d.setInitialized v).isInitialized w = true := by
  cases v with
  | field id =>
    cases w with
    | field id' => exact flag_modify Field.isInitialized (fun _ => rfl) initialized
    | localVar l => exact initialized
  | localVar l =>
    cases w with
    | field id => exact initialized
    | localVar l' => exact flag_modify Local.isInitialized (fun _ => rfl) initialized

theorem isInitialized_setInitialized_self {v : Var} (declared : d.Declares v) :
    (d.setInitialized v).isInitialized v = true := by
  cases v with
  | field id =>
    have inside : id < d.fields.size := declared
    simp [isInitialized, setInitialized, field, Array.getElem_modify, inside]
  | localVar l =>
    have inside : l < d.locals.size := declared
    simp [isInitialized, setInitialized, localVar, Array.getElem_modify, inside]

theorem isInitialized_change {v : Var} (changed : d.change c = .ok d') (declared : d.Declares v)
    (initialized : d.isInitialized v = true) : d'.isInitialized v = true := by
  cases c with
  | field modifiers t =>
    cases changed
    cases v with
    | field id => exact flag_push Field.isInitialized declared initialized
    | localVar l => exact initialized
  | localVar modifiers t =>
    cases changed
    cases v with
    | field id => exact initialized
    | localVar l => exact flag_push Local.isInitialized declared initialized
  | counter =>
    cases changed
    cases v with
    | field id => exact initialized
    | localVar l => exact flag_push Local.isInitialized declared initialized
  | initialized w =>
    cases changed
    exact isInitialized_setInitialized initialized
  | method | entry | cost =>
    cases changed
    cases v <;> exact initialized
  | call caller callee =>
    obtain ⟨_, _, g, _, rfl⟩ := addCallEdge_eq_ok_iff.1 changed
    cases v <;> exact initialized

theorem Reachable.tracks (reachable : d.Reachable) : d.Tracks := by
  induction reachable with
  | empty => exact tracks_empty
  | change _ known changed ih => exact ih.change known changed

end Declarations

namespace Program

theorem extends_appendMethod (p : Program) (m : Method) :
    p.Extends { p with declared := p.declared.appendMethod m } where
  __ := Extends.refl p
  methodRecords := prefix_map_push ..
  calls a b call := (congrFun (congrFun (CallGraph.calls_addMethod _) a) b).mpr call

theorem extends_change {p : Program} {c : Change} {d : Declarations}
    (changed : p.declared.change c = .ok d) : p.Extends { p with declared := d } := by
  cases c with
  | field modifiers t =>
    cases changed
    exact { Extends.refl p with fieldRecords := prefix_map_push .. }
  | localVar modifiers t =>
    cases changed
    exact { Extends.refl p with localRecords := prefix_map_push .. }
  | counter =>
    cases changed
    exact extends_addCounter p
  | method modifiers params returns =>
    cases changed
    exact extends_appendMethod ..
  | entry =>
    cases changed
    exact extends_appendMethod ..
  | initialized v =>
    cases changed
    exact extends_setInitialized p v
  | cost m cost =>
    cases changed
    exact { Extends.refl p with methodRecords := prefix_map_modify _ _ fun _ => rfl }
  | call caller callee => exact extends_addCallEdge changed

structure Retains (p p' : Program) : Prop where
  later : p.Extends p'
  initialized : ∀ v, p.declared.Declares v → p.declared.isInitialized v = true →
    p'.declared.isInitialized v = true

theorem Retains.refl (p : Program) : p.Retains p := ⟨.refl p, fun _ _ initialized => initialized⟩

theorem Retains.trans {p p' p'' : Program} (h : p.Retains p') (h' : p'.Retains p'') :
    p.Retains p'' where
  later := h.later.trans h'.later
  initialized v declared initialized :=
    h'.initialized v (h.later.declares declared) (h.initialized v declared initialized)

theorem retains_change {p : Program} {c : Change} {d : Declarations}
    (changed : p.declared.change c = .ok d) : p.Retains { p with declared := d } :=
  ⟨extends_change changed, fun _ => Declarations.isInitialized_change changed⟩

end Program
end JavaSmith
