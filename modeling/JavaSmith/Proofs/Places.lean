import JavaSmith.Proofs.RunSound

/-! Where a statement stands in a block: within how many statements of control flow, and how many of
these are loops. -/
namespace JavaSmith

def Statement.blocks : Statement → List Block
  | .ifThen _ body | .loop _ _ _ body => [body]
  | .ifElse _ body otherwise => [body, otherwise]
  | _ => []

def Statement.isLoop : Statement → Bool
  | .loop _ _ _ _ => true
  | _ => false

/-- `b.Holds loops depth s` says that the statement `s` stands in the block within `depth` statements
of control flow, `loops` of them loops. -/
inductive Block.Holds : Block → (loops depth : Nat) → Statement → Prop where
  | here {b : Block} {s : Statement} : s ∈ b → Holds b 0 0 s
  | within {b inner : Block} {outer s : Statement} {loops depth : Nat} :
      outer ∈ b → inner ∈ outer.blocks → Holds inner loops depth s →
      Holds b (loops + outer.isLoop.toNat) (depth + 1) s

namespace Block

variable {b : Block} {s : Statement} {loops depth : Nat}

theorem Holds.mono {a : Block} (holds : Holds a loops depth s) (part : a ⊆ b) :
    Holds b loops depth s := by
  cases holds with
  | here member => exact .here (part member)
  | within member inner holds => exact .within (part member) inner holds

end Block

mutual

theorem Statement.exists_holds_of_mem_visit {s : Statement} :
    (outer : Statement) → s ∈ outer.visit →
      s = outer ∨ ∃ inner ∈ outer.blocks, ∃ loops depth, Block.Holds inner loops depth s
  | .expression _, visited | .declare _ _, visited | .print _, visited | .returnVoid, visited
  | .returnValue _, visited => .inl (List.mem_singleton.1 visited)
  | .ifThen _ body, visited | .loop _ _ _ body, visited =>
    (List.mem_cons.1 visited).imp_right fun within =>
      ⟨body, List.mem_singleton_self _, exists_holds_of_mem_visitBlock body within⟩
  | .ifElse _ body otherwise, visited => by
    rw [Statement.visit, List.cons_append, List.mem_cons, List.mem_append] at visited
    rcases visited with own | first | second
    · exact .inl own
    · exact .inr ⟨body, by simp [Statement.blocks], exists_holds_of_mem_visitBlock body first⟩
    · exact .inr ⟨otherwise, by simp [Statement.blocks],
        exists_holds_of_mem_visitBlock otherwise second⟩

theorem exists_holds_of_mem_visitBlock {s : Statement} :
    (b : Block) → s ∈ visitBlock b → ∃ loops depth, Block.Holds b loops depth s
  | [], visited => by contradiction
  | outer :: rest, visited => by
    rcases List.mem_append.1 visited with first | later
    · rcases Statement.exists_holds_of_mem_visit outer first with rfl | ⟨inner, own, _, _, holds⟩
      · exact ⟨0, 0, .here List.mem_cons_self⟩
      · exact ⟨_, _, .within List.mem_cons_self own holds⟩
    · obtain ⟨_, _, holds⟩ := exists_holds_of_mem_visitBlock rest later
      exact ⟨_, _, holds.mono (List.subset_cons_self ..)⟩

end

end JavaSmith
