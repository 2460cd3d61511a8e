import JavaSmith.CallGraph
import Mathlib.Logic.Relation
import Mathlib.Logic.Function.Iterate

/-! The walk that hands a set down the call graph. It stops at methods that lack nothing, although
their callees were not looked at. What makes this right is an invariant with an exception: along
every edge the handed set has been passed on, unless the far end is still on the stack. The stack
is empty at the end, and so is the exception. -/
namespace JavaSmith.CallGraph

def setOf (sets : Array (List MethodId)) (m : MethodId) : List MethodId := sets[m]?.getD []

theorem setOf_of_lt {sets : Array (List MethodId)} {m : MethodId} (h : m < sets.size) :
    setOf sets m = sets[m] := by
  simp [setOf, h]

theorem setOf_set {sets : Array (List MethodId)} {m : MethodId} (h : m < sets.size)
    (xs : List MethodId) (k : MethodId) :
    setOf (sets.set m xs) k = if m = k then xs else setOf sets k := by
  unfold setOf
  rw [Array.getElem?_set]
  split
  · rfl
  · rfl

def Edge (callees : Array (List MethodId)) (a b : MethodId) : Prop := b ∈ setOf callees a

def Holds (handed : List MethodId) (sets : Array (List MethodId)) (m : MethodId) : Prop :=
  handed ⊆ setOf sets m

theorem lacks_eq_false_iff {handed set : List MethodId} :
    lacks handed set = false ↔ handed ⊆ set := by
  simp [lacks, List.subset_def]

theorem size_handDown (callees : Array (List MethodId)) (handed : List MethodId)
    (sets : Array (List MethodId)) (stack : List MethodId) :
    (handDown callees handed sets stack).size = sets.size := by
  fun_induction handDown callees handed sets stack with
  | case1 => rfl
  | case2 _ _ _ _ _ ih => rw [ih, Array.size_set]
  | case3 _ _ _ _ _ ih => exact ih
  | case4 _ _ _ _ ih => exact ih

theorem subset_handDown (callees : Array (List MethodId)) (handed : List MethodId)
    (sets : Array (List MethodId)) (stack : List MethodId) (k : MethodId) :
    setOf sets k ⊆ setOf (handDown callees handed sets stack) k := by
  fun_induction handDown callees handed sets stack with
  | case1 => exact List.Subset.refl _
  | case2 sets m rest h lacking ih =>
    intro x member
    apply ih
    rw [setOf_set h]
    split
    · next e =>
      subst e
      rw [setOf_of_lt h] at member
      exact mem_union.2 (.inr member)
    · exact member
  | case3 sets m rest h lacking ih => exact ih
  | case4 sets m rest h ih => exact ih

theorem mem_handDown {callees : Array (List MethodId)} {handed : List MethodId}
    {sets : Array (List MethodId)} {stack : List MethodId} {x k : MethodId}
    (member : x ∈ setOf (handDown callees handed sets stack) k) :
    x ∈ setOf sets k ∨
      x ∈ handed ∧ ∃ m ∈ stack, Relation.ReflTransGen (Edge callees) m k := by
  fun_induction handDown callees handed sets stack with
  | case1 => exact .inl member
  | case2 sets m rest h lacking ih =>
    rcases ih member with old | ⟨inHanded, s, onStack, path⟩
    · rw [setOf_set h] at old
      split at old
      · next e =>
        subst e
        rcases mem_union.1 old with inHanded | old
        · exact .inr ⟨inHanded, m, List.mem_cons_self, .refl⟩
        · rw [← setOf_of_lt h] at old
          exact .inl old
      · exact .inl old
    · rcases List.mem_append.1 onStack with callee | onRest
      · exact .inr ⟨inHanded, m, List.mem_cons_self, path.head callee⟩
      · exact .inr ⟨inHanded, s, List.mem_cons_of_mem _ onRest, path⟩
  | case3 sets m rest h lacking ih =>
    rcases ih member with old | ⟨inHanded, s, onRest, path⟩
    · exact .inl old
    · exact .inr ⟨inHanded, s, List.mem_cons_of_mem _ onRest, path⟩
  | case4 sets m rest h ih =>
    rcases ih member with old | ⟨inHanded, s, onRest, path⟩
    · exact .inl old
    · exact .inr ⟨inHanded, s, List.mem_cons_of_mem _ onRest, path⟩

/-- The invariant of the walk. The handed set was passed on along every edge whose far end is not
waiting on the stack. -/
def PassedOn (callees : Array (List MethodId)) (handed : List MethodId)
    (sets : Array (List MethodId)) (stack : List MethodId) : Prop :=
  ∀ a b, Edge callees a b → Holds handed sets a → Holds handed sets b ∨ b ∈ stack

/-- Setting the handed set at the top of the stack and pushing its callees keeps the invariant. -/
theorem PassedOn.enter {callees : Array (List MethodId)} {handed : List MethodId}
    {sets : Array (List MethodId)} {m : MethodId} {rest : List MethodId} (h : m < sets.size)
    (inv : PassedOn callees handed sets (m :: rest)) :
    PassedOn callees handed (sets.set m (union handed sets[m])) (setOf callees m ++ rest) := by
  have whole : Holds handed (sets.set m (union handed sets[m])) m := by
    intro x member
    rw [setOf_set h, if_pos rfl]
    exact mem_union.2 (.inl member)
  intro a b edge holds
  by_cases fromTop : m = a
  · subst fromTop
    exact .inr (List.mem_append.2 (.inl edge))
  · have before : Holds handed sets a := by
      unfold Holds at holds
      rwa [setOf_set h, if_neg fromTop] at holds
    rcases inv a b edge before with reached | onStack
    · left
      by_cases toTop : m = b
      · exact toTop ▸ whole
      · unfold Holds
        rwa [setOf_set h, if_neg toTop]
    · rcases List.mem_cons.1 onStack with toTop | onRest
      · exact .inl (toTop ▸ whole)
      · exact .inr (List.mem_append.2 (.inr onRest))

theorem PassedOn.drop {callees : Array (List MethodId)} {handed : List MethodId}
    {sets : Array (List MethodId)} {m : MethodId} {rest : List MethodId}
    (complete : Holds handed sets m) (inv : PassedOn callees handed sets (m :: rest)) :
    PassedOn callees handed sets rest := by
  intro a b edge holds
  rcases inv a b edge holds with reached | onStack
  · exact .inl reached
  · rcases List.mem_cons.1 onStack with top | onRest
    · exact .inl (top ▸ complete)
    · exact .inr onRest

def Bounded (callees : Array (List MethodId)) (size : Nat) : Prop :=
  ∀ a b, Edge callees a b → b < size

theorem passedOn_handDown {callees : Array (List MethodId)} {handed : List MethodId}
    {sets : Array (List MethodId)} {stack : List MethodId}
    (bounded : Bounded callees sets.size) (waiting : ∀ m ∈ stack, m < sets.size)
    (inv : PassedOn callees handed sets stack) :
    PassedOn callees handed (handDown callees handed sets stack) [] := by
  fun_induction handDown callees handed sets stack with
  | case1 => exact inv
  | case2 sets m rest h lacking ih =>
    apply ih
    · rwa [Array.size_set]
    · intro k member
      rw [Array.size_set]
      rcases List.mem_append.1 member with callee | onRest
      · exact bounded m k callee
      · exact waiting k (List.mem_cons_of_mem _ onRest)
    · exact inv.enter h
  | case3 sets m rest h complete ih =>
    apply ih bounded (fun k member => waiting k (List.mem_cons_of_mem _ member))
    apply inv.drop
    rw [Bool.not_eq_true, lacks_eq_false_iff] at complete
    unfold Holds
    rwa [setOf_of_lt h]
  | case4 sets m rest outside ih => exact absurd (waiting m List.mem_cons_self) outside

theorem holds_handDown {callees : Array (List MethodId)} {handed : List MethodId}
    {sets : Array (List MethodId)} {stack : List MethodId} {k : MethodId}
    (waiting : ∀ m ∈ stack, m < sets.size) (bounded : Bounded callees sets.size)
    (member : k ∈ stack) : Holds handed (handDown callees handed sets stack) k := by
  fun_induction handDown callees handed sets stack with
  | case1 => contradiction
  | case2 sets m rest h lacking ih =>
    have inside : ∀ n ∈ callees[m]?.getD [] ++ rest, n < sets.size := by
      intro n onStack
      rcases List.mem_append.1 onStack with callee | onRest
      · exact bounded m n callee
      · exact waiting n (List.mem_cons_of_mem _ onRest)
    rcases List.mem_cons.1 member with top | onRest
    · subst top
      apply List.Subset.trans _ (subset_handDown ..)
      intro x inHanded
      rw [setOf_set h, if_pos rfl]
      exact mem_union.2 (.inl inHanded)
    · apply ih
      · rwa [Array.size_set]
      · rwa [Array.size_set]
      · exact List.mem_append.2 (.inr onRest)
  | case3 sets m rest h complete ih =>
    rcases List.mem_cons.1 member with top | onRest
    · subst top
      rw [Bool.not_eq_true, lacks_eq_false_iff, ← setOf_of_lt h] at complete
      exact List.Subset.trans complete (subset_handDown ..)
    · exact ih (fun n inRest => waiting n (List.mem_cons_of_mem _ inRest)) bounded onRest
  | case4 sets m rest outside ih => exact absurd (waiting m List.mem_cons_self) outside

theorem holds_of_path {callees : Array (List MethodId)} {handed : List MethodId}
    {sets : Array (List MethodId)} {stack : List MethodId} {m k : MethodId}
    (bounded : Bounded callees sets.size) (waiting : ∀ m ∈ stack, m < sets.size)
    (inv : PassedOn callees handed sets stack) (member : m ∈ stack)
    (path : Relation.ReflTransGen (Edge callees) m k) :
    Holds handed (handDown callees handed sets stack) k := by
  induction path with
  | refl => exact holds_handDown waiting bounded member
  | tail _ edge ih =>
    rcases passedOn_handDown bounded waiting inv _ _ edge ih with reached | onStack
    · exact reached
    · contradiction

/-- One turn of the loop: the top of the stack is looked at. -/
def handStep (callees : Array (List MethodId)) (handed : List MethodId) :
    Array (List MethodId) × List MethodId → Array (List MethodId) × List MethodId
  | (sets, []) => (sets, [])
  | (sets, m :: rest) =>
    if m < sets.size ∧ lacks handed (setOf sets m) = true then
      (sets.setIfInBounds m (union handed (setOf sets m)), setOf callees m ++ rest)
    else (sets, rest)

/-- The loop comes to an end, with the stack empty, and leaves the sets that `handDown` gives. -/
theorem exists_iterate_handStep (callees : Array (List MethodId)) (handed : List MethodId)
    (sets : Array (List MethodId)) (stack : List MethodId) :
    ∃ turns, (handStep callees handed)^[turns] (sets, stack) =
      (handDown callees handed sets stack, []) := by
  fun_induction handDown callees handed sets stack with
  | case1 sets => exact ⟨0, rfl⟩
  | case2 sets m rest h lacking ih =>
    obtain ⟨turns, e⟩ := ih
    refine ⟨turns + 1, ?_⟩
    rw [Function.iterate_succ_apply, ← e]
    congr 1
    rw [handStep, if_pos ⟨h, by rwa [setOf_of_lt h]⟩, setOf_of_lt h, Array.setIfInBounds, dif_pos h]
    rfl
  | case3 sets m rest h complete ih =>
    obtain ⟨turns, e⟩ := ih
    refine ⟨turns + 1, ?_⟩
    rw [Function.iterate_succ_apply, ← e, handStep, if_neg]
    rintro ⟨_, lacking⟩
    rw [setOf_of_lt h] at lacking
    exact complete lacking
  | case4 sets m rest outside ih =>
    obtain ⟨turns, e⟩ := ih
    refine ⟨turns + 1, ?_⟩
    rw [Function.iterate_succ_apply, ← e, handStep, if_neg]
    rintro ⟨h, _⟩
    exact outside h

end JavaSmith.CallGraph
