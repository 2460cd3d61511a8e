import JavaSmith.Proofs.Arena
import JavaSmith.Proofs.Emission
import JavaSmith.Proofs.Generation
import JavaSmith.Proofs.Locals

/-! Classes however they are built. Expressions are added one by one, checked or not, each made of some
that are there, and everything else about a class may be set to anything that names what is there.
Reading an expression off such a class ends and finds all that it looks up, so that writing the class
can fail at expressions without value alone. -/
namespace JavaSmith

open Relation

namespace Program

/-- Numbers are of what the class has: variables of those declared, and fields, methods, locals and
expressions likewise. -/
structure Names (p : Program) : Prop where
  vars : ∀ e v, (p.node e).var? = some v → p.declared.Declares v
  fields : ∀ f ∈ p.fields.toList, f.field < p.declared.fields.size ∧ f.initializer < p.exprCount
  methods : ∀ m ∈ p.methodsInOrder, m.method < p.declared.methods.size
  locals : ∀ m ∈ p.methodsInOrder, ∀ l ∈ m.introduces, l.1 < p.declared.locals.size
  roots : ∀ m ∈ p.methodsInOrder, ∀ e ∈ Block.roots m.body, e < p.exprCount

/-- The class is made from a new one with numbers that it gave out itself. -/
inductive Built : Program → Prop where
  | new (className : String) (seed : UInt64) (knobs : Knobs) : Built (.new className seed knobs)
  /-- Any node at any type, whether or not it would pass a check. -/
  | add {p : Program} {node : Node} (t : Ty) :
    Built p → (∀ o ∈ node.operands, o < p.exprCount) →
      (∀ v, node.var? = some v → p.declared.Declares v) → Built (p.add node t).2
  /-- Whatever is not an expression can be set at will. -/
  | set {p p' : Program} : Built p → p'.arena = p.arena → p'.Names → Built p'

variable {p p' : Program} {node : Node}

theorem names_new (className : String) (seed : UInt64) (knobs : Knobs) :
    (Program.new className seed knobs).Names where
  vars e v used := by contradiction
  fields f member := by contradiction
  methods := List.forall_mem_singleton.2 Nat.zero_lt_one
  locals := List.forall_mem_singleton.2 fun l none => by contradiction
  roots := List.forall_mem_singleton.2 fun e none => by contradiction

theorem Names.add (names : p.Names) (t : Ty)
    (var : ∀ v, node.var? = some v → p.declared.Declares v) : (p.add node t).2.Names where
  vars e v used := by
    rcases p.node_add_cases node t e with ⟨_, new⟩ | old
    · exact var v (new ▸ used)
    · exact names.vars e v (old ▸ used)
  fields f member := by
    obtain ⟨declared, made⟩ := names.fields f member
    exact ⟨declared, Nat.lt_of_lt_of_le made (p.extends_add node t).arena_size⟩
  methods := names.methods
  locals := names.locals
  roots m member e root :=
    Nat.lt_of_lt_of_le (names.roots m member e root) (p.extends_add node t).arena_size

theorem Built.valid (built : p.Built) : p.Grounded ∧ p.Names := by
  induction built with
  | new => exact ⟨fun e o operand => by contradiction, names_new ..⟩
  | add t _ operands var ih => exact ⟨ih.1.add t operands, ih.2.add t var⟩
  | set _ arena names ih => exact ⟨ih.1.of_arena arena, names⟩

/-- The declarations of the class with its first expressions alone. -/
def upTo (p : Program) (n : Nat) : Program :=
  { p with fields := #[], methods := #[], entry := { p.entry with params := [], body := [] },
           arena := p.arena.extract 0 n }

theorem node_upTo (p : Program) (n : Nat) (e : ExprId) :
    (p.upTo n).node e = if e < n then p.node e else .hole := by
  have found : (p.upTo n).arena[e]? = if e < n then p.arena[e]? else none := by
    simp only [upTo, Array.getElem?_extract, Nat.sub_zero, Nat.zero_add]
    grind
  unfold Program.node
  rw [found]
  split <;> rfl

theorem names_upTo (names : p.Names) (n : Nat) : (p.upTo n).Names where
  vars e v used := by
    rw [node_upTo] at used
    split at used
    · exact names.vars e v used
    · contradiction
  fields f member := by contradiction
  methods := List.forall_mem_singleton.2 (names.methods p.entry (by simp [methodsInOrder]))
  locals := List.forall_mem_singleton.2 fun l none => by contradiction
  roots := List.forall_mem_singleton.2 fun e none => by contradiction

theorem upTo_succ {n : Nat} (inside : n < p.exprCount) :
    p.upTo (n + 1) = ((p.upTo n).add (p.node n) (p.typeOf n)).2 := by
  have pushed := Array.extract_succ_right (Nat.zero_lt_succ n) inside
  have found := Array.getElem?_eq_getElem inside
  simp [upTo, Program.add, Program.node, typeOf, pushed, found]

theorem Built.of_valid (grounded : p.Grounded) (names : p.Names) : p.Built := by
  have steps (n : Nat) (inside : n ≤ p.exprCount) : (p.upTo n).Built := by
    induction n with
    | zero =>
      exact (Built.new p.className p.seed p.knobs).set (by simp [upTo, Program.new]) (names_upTo names 0)
    | succ n ih =>
      have count : (p.upTo n).exprCount = n := by
        simpa [upTo, exprCount] using Nat.le_of_lt inside
      rw [upTo_succ inside]
      refine (ih (Nat.le_of_lt inside)).add _ (fun o operand => ?_) (names.vars n)
      exact count.symm ▸ grounded n o operand
  exact (steps _ (Nat.le_refl _)).set (by simp [upTo, exprCount]) names

/-- What can be built is what has operands before wholes and names nothing that is not there. -/
theorem built_iff : p.Built ↔ p.Grounded ∧ p.Names :=
  ⟨Built.valid, fun ⟨grounded, names⟩ => .of_valid grounded names⟩

/-- A number that is not given out yet, as one of another class may be, can be that of the node itself. -/
example : ¬((Program.new "T" 0 .default).add (.cast (.primitive .int) 0) (.primitive .int)).2.Built :=
  fun built => absurd (built.valid.1 0 0 List.mem_cons_self) (Nat.lt_irrefl 0)

theorem Typed.declares {c : Catalog} {e : ExprId} {t : Ty} {v : Var} (typed : p.Typed c e node t)
    (used : node.var? = some v) : p.declared.Declares v := by
  cases typed with
  | read declared | assign declared => exact Option.some.inj used ▸ declared
  | _ => contradiction

theorem MethodTyped.introduces {m : MethodDeclaration} (typed : p.MethodTyped m) :
    ∀ l ∈ m.introduces, l.1 < p.declared.locals.size := by
  intro l member
  rcases List.mem_append.1 member with param | inner
  · obtain ⟨l, given, rfl⟩ := List.mem_map.1 param
    exact typed.locals l given
  · obtain ⟨s, visited, own⟩ := List.mem_flatMap.1 inner
    have valid := typed.body s visited
    cases s with
    | declare => exact List.mem_singleton.1 own ▸ valid.1
    | loop => exact List.mem_singleton.1 own ▸ valid.1.1
    | _ => contradiction

end Program

namespace Generated

variable {c : Catalog} {p : Program} {seed : UInt64} {config : Config}

theorem names (generated : Generated c seed config p) : p.Names where
  vars e v used := by
    refine (generated.sound.typed_of_node (e := e) rfl fun hole => ?_).declares used
    rw [hole] at used
    contradiction
  fields f member :=
    have typed := generated.sound.fields f member
    ⟨typed.known, typed.initializer.inside⟩
  methods m member := (generated.methodTyped m member).known
  locals m member := (generated.methodTyped m member).introduces
  roots m member _ root := (generated.methodTyped m member).body.roots.of_mem root

/-- Generation makes no class that could not be built with its own numbers. -/
theorem built (generated : Generated c seed config p) : p.Built :=
  .of_valid generated.sound.grounded generated.names

end Generated

/-- A class that is built with its own numbers, and whose arrays are created of array types, can be written
exactly if no expression without value is part of what a field or a method evaluates. Otherwise writing
it fails: at the fields, if one of them has such a part, and else at the first method that has one.
Reading its expressions ends, as operands come before what they are part of, and whatever is looked up
on the way is there. -/
theorem source_fails_exactly_at_holes {p : Program} (built : p.Built)
    (arrays : ∀ e t sizes, p.node e = .newArray t sizes → ∃ component n, t = .array component n) :
    (∀ e o, p.Operand e o → o < e) ∧ p.Names ∧
    ((∃ text, p.source = .ok text) ↔ (∀ f ∈ p.fields.toList, ¬p.ReachesHole f.initializer) ∧
      ∀ m ∈ p.methodsInOrder, ¬p.BlockReachesHole m.body) ∧
    ((∃ f ∈ p.fields.toList, p.ReachesHole f.initializer) →
      p.source = .error (.emission p.className "<fields>")) ∧
    ∀ before m after, p.methodsInOrder = before ++ m :: after →
      (∀ f ∈ p.fields.toList, ¬p.ReachesHole f.initializer) →
      (∀ k ∈ before, ¬p.BlockReachesHole k.body) → p.BlockReachesHole m.body →
      p.source = .error (.emission p.className (p.declared.method m.method).name) := by
  obtain ⟨grounded, names⟩ := built.valid
  have texts := grounded.failsAtHoles arrays
  exact ⟨grounded, names, texts.source_ok_iff, texts.source_eq_of_field,
    fun before m after split fields fine failed => texts.source_eq_of_method fields split fine failed⟩

/-- A number without value is cast and printed in a loop of the entry, behind a method that has none. -/
theorem hole_in_loop_blamed_on_entry :
    let int : Ty := .primitive .int
    let start : Program :=
      { Program.new "T" 0 .default with
        declared := (Declarations.empty.addEntry.addMethod .none [] .void).addCounter }
    let bound := (start.add (.constant (.int 3)) (.loopBound 5)).2
    let hole := (bound.add .hole .void).2
    let cast := (hole.add (.cast int 1) int).2
    let array := (cast.add (.newArray (.array int 1) [0]) (.array int 1)).2
    let p : Program :=
      { array with
        methods := #[⟨1, [], [.print 3]⟩]
        entry := ⟨0, [], [.loop .forLoop 0 0 [.print 2]]⟩ }
    p.Built ∧ p.ArraysTyped ∧ p.ReachesHole 2 ∧ p.source = .error (.emission "T" "run") := by
  intro int start bound hole cast array p
  have started : start.Built := by
    refine .set (.new "T" 0 .default) rfl ⟨fun e v used => ?_, fun f member => ?_, ?_, ?_, ?_⟩
    · contradiction
    · contradiction
    all_goals refine List.forall_mem_singleton.2 ?_
    · decide
    · decide
    · decide
  have bounded : bound.Built := started.add _ (by decide) fun v used => by contradiction
  have holed : hole.Built := bounded.add _ (by decide) fun v used => by contradiction
  have casted : cast.Built := holed.add _ (by decide) fun v used => by contradiction
  have created : array.Built := casted.add _ (by decide) fun v used => by contradiction
  have built : p.Built := by
    refine created.set rfl ⟨created.valid.2.vars, fun f member => ?_, ?_, ?_, ?_⟩
    · contradiction
    · decide
    · decide
    · decide
  have arrays : p.ArraysTyped := by
    -- the last of the four expressions is the only array
    rintro (_ | _ | _ | _ | e) t sizes new <;> cases new
    exact ⟨_, _, rfl⟩
  have reached : p.ReachesHole 2 := ⟨1, .single List.mem_cons_self, rfl⟩
  have whole : ¬p.ReachesHole 3 := by
    rw [Program.reachesHole_iff]
    rintro (hole | ⟨o, operand, reached⟩)
    · cases hole
    · rw [List.mem_singleton.1 operand, Program.reachesHole_iff] at reached
      rcases reached with hole | ⟨_, operand, _⟩
      · cases hole
      · cases operand
  refine ⟨built, arrays, reached, ?_⟩
  refine (source_fails_exactly_at_holes built arrays).2.2.2.2 [⟨1, [], [.print 3]⟩] p.entry [] rfl
    (fun f none => by contradiction) ?_ ?_
  · exact List.forall_mem_singleton.2 ((Program.blockReachesHole_leaf rfl rfl).not.2 whole)
  · refine (Program.blockReachesHole_singleton [.print 2] rfl rfl).2 (.inr ?_)
    exact (Program.blockReachesHole_leaf rfl rfl).2 reached

end JavaSmith
