import JavaSmith.Proofs.Emission

/-! A well-typed class can be written: nothing that it evaluates has a part without value. -/
namespace JavaSmith.Program

variable {c : Catalog} {p : Program}

theorem Given.before {e : ExprId} {ts : List Ty} {operands : List ExprId}
    (given : p.Given e ts operands) : ∀ o ∈ operands, o < e := by
  induction given with
  | nil => exact fun o none => by contradiction
  | cons first _ ih =>
    intro o member
    rcases List.mem_cons.1 member with rfl | later
    · exact first.1
    · exact ih o later

theorem Typed.before {e : ExprId} {node : Node} {t : Ty} (typed : p.Typed c e node t) :
    ∀ o ∈ node.operands, o < e := by
  cases typed with
  | constant | read => exact fun o none => by contradiction
  | assign _ _ _ before _ | cast before _ _ => exact List.forall_mem_singleton.2 before
  | call _ given _ | boxing given | onClass _ _ given | onObject _ _ given | construct _ given
  | newArray _ given => exact given.before
  | concat before before' _ _ | binary _ before before' _ _ _ _ =>
    exact List.forall_mem_cons.2 ⟨before, List.forall_mem_singleton.2 before'⟩

theorem node_of_le {e : ExprId} (outside : p.arena.size ≤ e) : p.node e = .hole := by
  rw [node, Array.getElem?_eq_none outside]
  rfl

theorem Operand.inside {e o : ExprId} (operand : p.Operand e o) : e < p.arena.size := by
  by_contra outside
  rw [Operand, node_of_le (Nat.le_of_not_lt outside)] at operand
  contradiction

namespace Sound

variable (sound : p.Sound c)

include sound

theorem grounded : p.Grounded :=
  fun e o operand => (sound.typed e operand.inside).before o operand

theorem typed_of_node {e : ExprId} {node : Node} (same : p.node e = node) (valued : node ≠ .hole) :
    p.Typed c e node (p.typeOf e) := by
  by_cases inside : e < p.arena.size
  · exact same ▸ sound.typed e inside
  · exact absurd (same.symm.trans (node_of_le (Nat.le_of_not_lt inside))) valued

theorem arraysTyped : p.ArraysTyped := by
  intro e t sizes array
  have typed := sound.typed_of_node array (by simp)
  generalize p.typeOf e = u at typed
  cases typed
  exact ⟨_, _, rfl⟩

theorem not_reachesHole {e : ExprId} (inside : e < p.arena.size) : ¬p.ReachesHole e := by
  induction e using Nat.strongRecOn with
  | ind e ih =>
    rw [reachesHole_iff]
    rintro (hole | ⟨o, operand, reached⟩)
    · have typed := sound.typed e inside
      rw [hole] at typed
      cases typed
    · have before := sound.grounded e o operand
      exact ih o before (Nat.lt_trans before inside) reached

/-- A sound class can be written as a whole. -/
theorem source_ok (entry : p.Roots p.entry.body) : ∃ text, p.source = .ok text := by
  have whole {b : Block} (roots : p.Roots b) : ¬p.BlockReachesHole b :=
    fun ⟨e, root, reached⟩ => sound.not_reachesHole (roots.of_mem root) reached
  refine (sound.grounded.failsAtHoles sound.arraysTyped).source_ok_iff.2
    ⟨fun f member => sound.not_reachesHole (sound.fields f member).initializer.inside, ?_⟩
  intro m member
  rcases List.mem_append.1 member with generated | last
  · exact whole (sound.methods m generated).body.roots
  · exact List.mem_singleton.1 last ▸ whole entry

end Sound

end JavaSmith.Program
