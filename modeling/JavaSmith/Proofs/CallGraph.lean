import JavaSmith.Proofs.Ascending
import JavaSmith.Proofs.HandDown

/-! The call graph against reachability. The sets kept beside the edges are exactly the ancestors of
each method, whatever the order in which methods and edges arrive, and an edge is refused exactly
where it would close a cycle. -/
namespace JavaSmith

namespace CallGraph

open Relation

def Calls (g : CallGraph) (a b : MethodId) : Prop := b ∈ g.calleesOf a

instance (g : CallGraph) (a b : MethodId) : Decidable (g.Calls a b) :=
  inferInstanceAs (Decidable (b ∈ g.calleesOf a))

/-- From `a` a possibly empty chain of calls leads to `b`. -/
abbrev Reaches (g : CallGraph) : MethodId → MethodId → Prop := ReflTransGen g.Calls

def Acyclic (g : CallGraph) : Prop := ∀ m, ¬TransGen g.Calls m m

theorem lt_size_of_calls {g : CallGraph} {a b : MethodId} (h : g.Calls a b) : a < g.size := by
  unfold Calls calleesOf at h
  by_contra outside
  rw [Array.getElem?_eq_none (Nat.le_of_not_lt outside)] at h
  contradiction

/-! The ancestors found by walking the edges backwards. -/

theorem mem_addCaller {g : CallGraph} {known : List MethodId} {m k : MethodId} :
    k ∈ g.addCaller known m ↔ k ∈ known ∨ k = m ∧ ∃ c ∈ known, g.Calls m c := by
  have caller : (g.calleesOf m).any known.contains = true ↔ ∃ c ∈ known, g.Calls m c := by
    simp only [List.any_eq_true, List.contains_eq_mem, decide_eq_true_eq, Calls]
    exact ⟨fun ⟨c, calls, old⟩ => ⟨c, old, calls⟩, fun ⟨c, old, calls⟩ => ⟨c, calls, old⟩⟩
  unfold addCaller
  split
  · next adds =>
    rw [mem_insertAscending, or_comm]
    exact or_congr_right (and_iff_left (caller.1 (Bool.and_eq_true_iff.1 adds).2)).symm
  · next keeps =>
    refine ⟨.inl, ?_⟩
    rintro (old | ⟨rfl, calls⟩)
    · exact old
    · simpa [caller.2 calls] using keeps

theorem exists_of_mem_foldl {g : CallGraph} {methods known : List MethodId} {m : MethodId}
    (h : m ∈ methods.foldl g.addCaller known) : ∃ k ∈ known, g.Reaches m k := by
  induction methods generalizing known with
  | nil => exact ⟨m, h, .refl⟩
  | cons n rest ih =>
    obtain ⟨k, member, path⟩ := ih h
    rcases mem_addCaller.1 member with old | ⟨rfl, c, old, calls⟩
    · exact ⟨k, old, path⟩
    · exact ⟨c, old, path.tail calls⟩

theorem mem_foldl_of_calls {g : CallGraph} {methods known : List MethodId} {m k : MethodId}
    (member : m ∈ methods) (old : k ∈ known) (calls : g.Calls m k) :
    m ∈ methods.foldl g.addCaller known := by
  induction methods generalizing known with
  | nil => contradiction
  | cons n rest ih =>
    rcases List.mem_cons.1 member with rfl | later
    · exact subset_foldl_addCaller g rest _ (mem_addCaller.2 (.inr ⟨rfl, k, old, calls⟩))
    · exact ih later (mem_addCaller.2 (.inl old))

theorem mem_reaching {g : CallGraph} {known : List MethodId} {m : MethodId} :
    m ∈ g.reaching known ↔ ∃ k ∈ known, g.Reaches m k := by
  fun_induction g.reaching known with
  | case1 known closed =>
    refine ⟨fun member => ⟨m, member, .refl⟩, ?_⟩
    rintro ⟨k, member, path⟩
    induction path using ReflTransGen.head_induction_on with
    | refl => exact member
    | head calls _ ih =>
      rw [← closed]
      exact mem_foldl_of_calls (List.mem_range.2 (lt_size_of_calls calls)) ih calls
  | case2 known more ih =>
    rw [ih]
    constructor
    · rintro ⟨k, member, path⟩
      obtain ⟨k', old, path'⟩ := exists_of_mem_foldl member
      exact ⟨k', old, path.trans path'⟩
    · rintro ⟨k, member, path⟩
      exact ⟨k, subset_foldl_addCaller _ _ _ member, path⟩

theorem pairwise_foldl_addCaller {g : CallGraph} {methods known : List MethodId}
    (sorted : known.Pairwise (· < ·)) : (methods.foldl g.addCaller known).Pairwise (· < ·) := by
  induction methods generalizing known with
  | nil => exact sorted
  | cons m rest ih =>
    apply ih
    unfold addCaller
    split
    · exact pairwise_insertAscending m sorted
    · exact sorted

theorem pairwise_reaching {g : CallGraph} {known : List MethodId} (sorted : known.Pairwise (· < ·)) :
    (g.reaching known).Pairwise (· < ·) := by
  fun_induction g.reaching known with
  | case1 known closed => exact sorted
  | case2 known more ih => exact ih (pairwise_foldl_addCaller sorted)

theorem pairwise_ancestors (g : CallGraph) (m : MethodId) : (g.ancestors m).Pairwise (· < ·) :=
  pairwise_reaching (List.pairwise_singleton ..)

theorem mem_ancestors {g : CallGraph} {m k : MethodId} :
    k ∈ g.ancestors m ↔ g.Reaches k m := by
  simp [ancestors, mem_reaching]

/-! The sets kept beside the edges. -/

/-- The sets are the ancestors, in ascending order, and the edges form no cycle. -/
structure Exact (g : CallGraph) : Prop where
  sizes : g.excluded.size = g.size
  inside : ∀ a b, g.Calls a b → b < g.size
  mem_excluded : ∀ m < g.size, ∀ k, k ∈ g.excludedFor m ↔ g.Reaches k m
  sorted : ∀ m, (g.excludedFor m).Pairwise (· < ·)
  acyclic : g.Acyclic

theorem Exact.excludedFor_eq {g : CallGraph} (exact : g.Exact) {m : MethodId} (h : m < g.size) :
    g.excludedFor m = g.ancestors m := by
  apply (exact.sorted m).eq_of_mem_iff (pairwise_ancestors g m)
  intro k
  rw [exact.mem_excluded m h]
  exact mem_ancestors.symm

theorem exact_empty : empty.Exact where
  sizes := rfl
  inside := fun a b calls => absurd (lt_size_of_calls calls) (Nat.not_lt_zero a)
  mem_excluded := fun m h => absurd h (Nat.not_lt_zero m)
  sorted := fun m => by simp [excludedFor, empty]
  acyclic := fun m path => by
    obtain ⟨k, calls, _⟩ := TransGen.head'_iff.1 path
    exact absurd (lt_size_of_calls calls) (Nat.not_lt_zero m)

@[simp] theorem size_addMethod (g : CallGraph) : g.addMethod.size = g.size + 1 := by
  simp [addMethod, size]

theorem calls_addMethod (g : CallGraph) : g.addMethod.Calls = g.Calls := by
  have callees (m : MethodId) : g.addMethod.calleesOf m = g.calleesOf m := by
    unfold calleesOf addMethod
    rw [Array.getElem?_push]
    split
    · next e => rw [e, Array.getElem?_eq_none (Nat.le_refl _)]; rfl
    · rfl
  funext a b
  unfold Calls
  rw [callees]

theorem excludedFor_addMethod {g : CallGraph} (sizes : g.excluded.size = g.size) (m : MethodId) :
    g.addMethod.excludedFor m = if m = g.size then [g.size] else g.excludedFor m := by
  unfold excludedFor addMethod
  rw [Array.getElem?_push, sizes]
  split
  · rfl
  · rfl

theorem Exact.addMethod {g : CallGraph} (exact : g.Exact) : g.addMethod.Exact where
  sizes := by simp [CallGraph.addMethod, size, exact.sizes]
  inside := by
    intro a b calls
    rw [calls_addMethod] at calls
    rw [size_addMethod]
    exact Nat.lt_succ_of_lt (exact.inside a b calls)
  mem_excluded := by
    intro m h k
    rw [excludedFor_addMethod exact.sizes, Reaches, calls_addMethod]
    split
    · next e =>
      subst e
      rw [List.mem_singleton]
      refine ⟨fun e => e ▸ .refl, fun path => ?_⟩
      rcases path.cases_tail with e | ⟨a, _, calls⟩
      · exact e.symm
      · exact absurd (exact.inside a _ calls) (Nat.lt_irrefl _)
    · next old =>
      rw [size_addMethod] at h
      exact exact.mem_excluded m (Nat.lt_of_le_of_ne (Nat.le_of_lt_succ h) old) k
  sorted := by
    intro m
    rw [excludedFor_addMethod exact.sizes]
    split
    · exact List.pairwise_singleton ..
    · exact exact.sorted m
  acyclic := by
    unfold Acyclic
    rw [calls_addMethod]
    exact exact.acyclic

/-! A new edge. -/

theorem pairwise_union (xs : List MethodId) {ys : List MethodId} (h : ys.Pairwise (· < ·)) :
    (union xs ys).Pairwise (· < ·) := by
  induction xs with
  | nil => exact h
  | cons x rest ih => exact pairwise_insertAscending x ih

def linked (g : CallGraph) (caller callee : MethodId) : Array (List MethodId) :=
  g.callees.modify caller (insertAscending callee)

theorem edge_linked {g : CallGraph} {caller callee a b : MethodId} (h : caller < g.size) :
    Edge (g.linked caller callee) a b ↔ g.Calls a b ∨ a = caller ∧ b = callee := by
  unfold Edge setOf linked Calls calleesOf
  rw [Array.getElem?_modify]
  split
  · next e =>
    subst e
    have inside : g.callees[caller]? = some g.callees[caller] := Array.getElem?_eq_getElem h
    rw [inside]
    simp [or_comm]
  · next differs =>
    constructor
    · exact .inl
    · rintro (old | ⟨e, _⟩)
      · exact old
      · exact absurd e.symm differs

/-- A chain of calls that uses the new edge can be cut at its last use of it. -/
theorem path_linked {g : CallGraph} {caller callee a b : MethodId} (h : caller < g.size) :
    ReflTransGen (Edge (g.linked caller callee)) a b ↔
      g.Reaches a b ∨ g.Reaches a caller ∧ g.Reaches callee b := by
  constructor
  · intro path
    induction path with
    | refl => exact .inl .refl
    | tail _ edge ih =>
      rcases (edge_linked h).1 edge with old | ⟨rfl, rfl⟩
      · rcases ih with before | ⟨before, later⟩
        · exact .inl (before.tail old)
        · exact .inr ⟨before, later.tail old⟩
      · rcases ih with before | ⟨before, _⟩
        · exact .inr ⟨before, .refl⟩
        · exact .inr ⟨before, .refl⟩
  · have widen {x y : MethodId} (path : g.Reaches x y) :
        ReflTransGen (Edge (g.linked caller callee)) x y :=
      ReflTransGen.mono (fun _ _ old => (edge_linked h).2 (.inl old)) _ _ path
    rintro (path | ⟨before, later⟩)
    · exact widen path
    · exact ((widen before).tail ((edge_linked h).2 (.inr ⟨rfl, rfl⟩))).trans (widen later)

theorem sorted_handDown {callees : Array (List MethodId)} {handed : List MethodId}
    {sets : Array (List MethodId)} {stack : List MethodId}
    (sorted : ∀ m, (setOf sets m).Pairwise (· < ·)) (k : MethodId) :
    (setOf (handDown callees handed sets stack) k).Pairwise (· < ·) := by
  fun_induction handDown callees handed sets stack with
  | case1 => exact sorted k
  | case2 sets m rest h lacking ih =>
    apply ih
    intro n
    rw [setOf_set h]
    split
    · rw [← setOf_of_lt h]
      exact pairwise_union handed (sorted m)
    · exact sorted n
  | case3 sets m rest h complete ih => exact ih sorted
  | case4 sets m rest outside ih => exact ih sorted

/-- The graph with the edge, whose sets are handed down from the caller. -/
def link (g : CallGraph) (caller callee : MethodId) : CallGraph :=
  ⟨g.linked caller callee,
   handDown (g.linked caller callee) (g.excludedFor caller) g.excluded [callee]⟩

@[simp] theorem size_link (g : CallGraph) (caller callee : MethodId) :
    (g.link caller callee).size = g.size := by
  simp [link, linked, size]

theorem calls_link {g : CallGraph} {caller callee a b : MethodId} (h : caller < g.size) :
    (g.link caller callee).Calls a b ↔ g.Calls a b ∨ a = caller ∧ b = callee := edge_linked h

theorem addEdge?_eq (g : CallGraph) (caller callee : MethodId) :
    g.addEdge? caller callee =
      if callee ∈ g.excludedFor caller then none
      else if g.Calls caller callee then some g else some (g.link caller callee) := by
  simp only [addEdge?, Calls, link, linked, List.contains_eq_mem, decide_eq_true_eq]
  rfl

namespace Exact

variable {g : CallGraph} {caller callee : MethodId}

theorem addEdge?_eq_none_iff (exact : g.Exact) (h : caller < g.size) :
    g.addEdge? caller callee = none ↔ g.Reaches callee caller := by
  rw [addEdge?_eq, ← exact.mem_excluded caller h]
  split
  · simp [*]
  · split <;> simp [*]

theorem addEdge?_of_calls (exact : g.Exact) (present : g.Calls caller callee) :
    g.addEdge? caller callee = some g := by
  have h := lt_size_of_calls present
  rw [addEdge?_eq, if_neg, if_pos present]
  intro excluded
  rw [exact.mem_excluded caller h] at excluded
  exact exact.acyclic caller (TransGen.head' present excluded)

/-- Sets grow along edges, so before the walk the handed set was passed on along all but the new
edge, whose far end waits on the stack. -/
theorem passedOn (exact : g.Exact) (h : caller < g.size) :
    PassedOn (g.linked caller callee) (g.excludedFor caller) g.excluded [callee] := by
  intro a b edge holds
  rcases (edge_linked h).1 edge with old | ⟨_, rfl⟩
  · left
    intro x inHanded
    have reachesA : g.Reaches x a :=
      (exact.mem_excluded a (lt_size_of_calls old) x).1 (holds inHanded)
    exact (exact.mem_excluded b (exact.inside a b old) x).2 (reachesA.tail old)
  · exact .inr (List.mem_singleton.2 rfl)

theorem mem_excludedFor_link (exact : g.Exact) (h : caller < g.size) (h' : callee < g.size)
    {m : MethodId} (inside : m < g.size) (k : MethodId) :
    k ∈ (g.link caller callee).excludedFor m ↔ (g.link caller callee).Reaches k m := by
  have bounded : Bounded (g.linked caller callee) g.excluded.size := by
    intro a b edge
    rw [exact.sizes]
    rcases (edge_linked h).1 edge with old | ⟨_, rfl⟩
    · exact exact.inside a b old
    · exact h'
  have waiting : ∀ n ∈ [callee], n < g.excluded.size := by
    intro n member
    rwa [List.mem_singleton.1 member, exact.sizes]
  change k ∈ setOf (handDown _ _ _ _) m ↔ ReflTransGen (Edge (g.linked caller callee)) k m
  rw [path_linked h]
  constructor
  · intro member
    rcases mem_handDown member with old | ⟨inHanded, n, onStack, path⟩
    · exact .inl ((exact.mem_excluded m inside k).1 old)
    · rw [List.mem_singleton.1 onStack, path_linked h] at path
      have reachesCaller := (exact.mem_excluded caller h k).1 inHanded
      rcases path with later | ⟨_, later⟩
      · exact .inr ⟨reachesCaller, later⟩
      · exact .inr ⟨reachesCaller, later⟩
  · rintro (path | ⟨before, later⟩)
    · exact subset_handDown _ _ _ _ _ ((exact.mem_excluded m inside k).2 path)
    · have whole := holds_of_path bounded waiting (exact.passedOn h) (List.mem_singleton.2 rfl)
        ((path_linked h).2 (.inl later))
      exact whole ((exact.mem_excluded caller h k).2 before)

theorem acyclic_link (exact : g.Exact) (h : caller < g.size) (free : ¬g.Reaches callee caller) :
    (g.link caller callee).Acyclic := by
  intro m cycle
  obtain ⟨n, path, last⟩ := TransGen.tail'_iff.1 cycle
  rcases (calls_link h).1 last with old | ⟨rfl, rfl⟩
  · rcases (path_linked h).1 path with before | ⟨before, later⟩
    · exact exact.acyclic m (TransGen.tail' before old)
    · exact free ((later.tail old).trans before)
  · rcases (path_linked h).1 path with before | ⟨_, later⟩
    · exact free before
    · exact free later

theorem sorted_link (exact : g.Exact) (m : MethodId) :
    ((g.link caller callee).excludedFor m).Pairwise (· < ·) :=
  sorted_handDown exact.sorted m

/-- Exactness survives every edge that is not refused. -/
theorem link (exact : g.Exact) (h : caller < g.size) (h' : callee < g.size)
    (free : ¬g.Reaches callee caller) : (g.link caller callee).Exact where
  sizes := by
    rw [size_link, ← exact.sizes]
    exact size_handDown ..
  inside := by
    intro a b calls
    rw [size_link]
    rcases (calls_link h).1 calls with old | ⟨_, rfl⟩
    · exact exact.inside a b old
    · exact h'
  mem_excluded := by
    intro m inside k
    rw [size_link] at inside
    exact exact.mem_excludedFor_link h h' inside k
  sorted := exact.sorted_link
  acyclic := exact.acyclic_link h free

theorem addEdge? (exact : g.Exact) (h : caller < g.size) (h' : callee < g.size) {g' : CallGraph}
    (added : g.addEdge? caller callee = some g') : g'.Exact := by
  have free : ¬g.Reaches callee caller := by
    rw [← exact.addEdge?_eq_none_iff h, added]
    exact Option.some_ne_none g'
  rw [addEdge?_eq] at added
  split at added
  · contradiction
  · split at added
    · exact Option.some.inj added ▸ exact
    · exact Option.some.inj added ▸ exact.link h h' free

end Exact

theorem size_addEdge? {g g' : CallGraph} {caller callee : MethodId}
    (added : g.addEdge? caller callee = some g') : g'.size = g.size := by
  rw [addEdge?_eq] at added
  split at added
  · contradiction
  · split at added
    · exact Option.some.inj added ▸ rfl
    · exact Option.some.inj added ▸ size_link g caller callee

theorem eq_link_of_addEdge? {g g' : CallGraph} {caller callee : MethodId}
    (added : g.addEdge? caller callee = some g') (new : ¬g.Calls caller callee) :
    g' = g.link caller callee := by
  rw [addEdge?_eq, if_neg new] at added
  split at added
  · contradiction
  · exact (Option.some.inj added).symm

theorem calls_addEdge? {g g' : CallGraph} {caller callee a b : MethodId} (h : caller < g.size)
    (added : g.addEdge? caller callee = some g') :
    g'.Calls a b ↔ g.Calls a b ∨ a = caller ∧ b = callee := by
  rw [addEdge?_eq] at added
  split at added
  · contradiction
  · split at added
    · next present =>
      rw [← Option.some.inj added]
      refine ⟨.inl, ?_⟩
      rintro (old | ⟨rfl, rfl⟩)
      · exact old
      · exact present
    · rw [← Option.some.inj added]
      exact calls_link h

theorem eq_of_calls_addEdge? {g g' : CallGraph} {caller callee a b : MethodId}
    (added : g.addEdge? caller callee = some g') (call : g'.Calls a b) :
    g.Calls a b ∨ a = caller ∧ b = callee := by
  by_cases inside : caller < g.size
  · exact (calls_addEdge? inside added).1 call
  · rw [addEdge?_eq] at added
    split at added
    · contradiction
    · split at added
      · exact .inl (Option.some.inj added ▸ call)
      · rw [← Option.some.inj added] at call
        have outside : g.callees[caller]? = none := Array.getElem?_eq_none (Nat.le_of_not_lt inside)
        change b ∈ ((g.linked caller callee)[a]?).getD [] at call
        rw [linked, Array.getElem?_modify] at call
        split at call
        · next same =>
          rw [← same, outside] at call
          contradiction
        · exact .inl call

theorem calls_of_addEdge? {g g' : CallGraph} {caller callee a b : MethodId}
    (added : g.addEdge? caller callee = some g') (old : g.Calls a b) : g'.Calls a b := by
  by_cases inside : caller < g.size
  · exact (calls_addEdge? inside added).2 (.inl old)
  · rw [addEdge?_eq] at added
    split at added
    · contradiction
    · split at added
      · exact Option.some.inj added ▸ old
      · rw [← Option.some.inj added]
        have elsewhere : caller ≠ a := by
          rintro rfl
          exact inside (lt_size_of_calls old)
        change b ∈ ((g.linked caller callee)[a]?).getD []
        rwa [linked, Array.getElem?_modify, if_neg elsewhere]

end CallGraph
end JavaSmith
