import JavaSmith.Proofs.CallGraph

/-! The two traversals of the call graph, on graphs whose calls may form cycles. The search is right because
a method is active exactly while it lies on the path the search stands at, and the stack holds that path:
whatever lies above a method that is to be left was put there since it was entered. A method that is to be
entered a second time is done by then, so what the stack still holds of it does no harm. -/
namespace JavaSmith.CallGraph

open Relation

variable {g : CallGraph} {marks marks' : Array Mark} {rest stack : List Visit} {m k : MethodId}

theorem markOf_set_done (marks : Array Mark) (m k : MethodId) :
    markOf (marks.setIfInBounds m .done) k = if m = k then .done else markOf marks k := by
  unfold markOf
  rw [Array.getElem?_setIfInBounds]
  split
  · split <;> rfl
  · rfl

theorem markOf_set_active (new : markOf marks m = .new) (k : MethodId) :
    markOf (marks.setIfInBounds m .active) k = if m = k then .active else markOf marks k := by
  have inside : m < marks.size := by
    by_contra outside
    rw [markOf, Array.getElem?_eq_none (Nat.le_of_not_lt outside)] at new
    contradiction
  unfold markOf
  rw [Array.getElem?_setIfInBounds, if_pos inside]
  split <;> rfl

def Visit.method : Visit → MethodId
  | .enter m | .leave m => m

/-- Methods to be left, the one entered last first. -/
def pathOf : List Visit → List MethodId
  | [] => []
  | .enter _ :: rest => pathOf rest
  | .leave m :: rest => m :: pathOf rest

/-- Every method on the stack is called by the next below it that is to be left. -/
def Linked (g : CallGraph) : List Visit → Prop
  | [] => True
  | v :: rest => (∀ p ∈ (pathOf rest).head?, g.Calls p v.method) ∧ g.Linked rest

/-- Whatever is called by a method that is to be left is among the given ones or lies above it. -/
def Awaits (g : CallGraph) (settled : MethodId → Prop) : List Visit → Prop
  | [] => True
  | v :: rest =>
    (∀ m, v = .leave m → ∀ c, g.Calls m c → settled c) ∧
    g.Awaits (fun c => settled c ∨ c = v.method) rest

/-- What holds of the marks and the stack between the turns of the search. -/
structure Searching (g : CallGraph) (marks : Array Mark) (stack : List Visit) : Prop where
  active_iff : ∀ m, markOf marks m = .active ↔ m ∈ pathOf stack
  nodup : (pathOf stack).Nodup
  linked : g.Linked stack
  awaits : g.Awaits (fun c => markOf marks c = .done) stack
  closed : ∀ m, markOf marks m = .done → ∀ c, g.Calls m c → markOf marks c = .done
  acyclic : ∀ m, markOf marks m = .done → ¬TransGen g.Calls m m

theorem pathOf_map_enter (ms : List MethodId) (stack : List Visit) :
    pathOf (ms.map Visit.enter ++ stack) = pathOf stack := by
  induction ms with
  | nil => rfl
  | cons m ms ih => exact ih

theorem Linked.push {ms : List MethodId} (linked : g.Linked (.leave m :: rest))
    (called : ∀ c ∈ ms, g.Calls m c) : g.Linked (ms.map Visit.enter ++ .leave m :: rest) := by
  induction ms with
  | nil => exact linked
  | cons c ms ih =>
    refine ⟨fun p top => ?_, ih fun c member => called c (List.mem_cons_of_mem _ member)⟩
    have path : pathOf (ms.map Visit.enter ++ .leave m :: rest) = m :: pathOf rest :=
      pathOf_map_enter ..
    obtain rfl : m = p := Option.some.inj (path ▸ top :)
    exact called c List.mem_cons_self

theorem Linked.transGen {v : Visit} (linked : g.Linked (v :: rest)) (member : k ∈ pathOf rest) :
    TransGen g.Calls k v.method := by
  induction rest generalizing v with
  | nil => contradiction
  | cons w rest ih =>
    obtain ⟨first, below⟩ := linked
    cases w with
    | enter n => exact ih ⟨first, below.2⟩ member
    | leave n =>
      have calls : g.Calls n v.method := first n rfl
      rcases List.mem_cons.1 member with rfl | deeper
      · exact .single calls
      · exact (ih below deeper).tail calls

theorem Awaits.mono {settled settled' : MethodId → Prop} (awaits : g.Awaits settled stack)
    (h : ∀ c, settled c → settled' c) : g.Awaits settled' stack := by
  induction stack generalizing settled settled' with
  | nil => trivial
  | cons v rest ih =>
    exact ⟨fun m leaves c calls => h c (awaits.1 m leaves c calls),
      ih awaits.2 fun c => Or.imp_left (h c)⟩

theorem Awaits.push {settled : MethodId → Prop} {ms : List MethodId}
    (awaits : g.Awaits (fun c => settled c ∨ c ∈ ms) stack) :
    g.Awaits settled (ms.map Visit.enter ++ stack) := by
  induction ms generalizing settled with
  | nil => exact awaits.mono fun c old => old.resolve_right List.not_mem_nil
  | cons m ms ih =>
    refine ⟨fun _ leaves => by contradiction, ih (awaits.mono fun c old => ?_)⟩
    rw [List.mem_cons, ← or_assoc] at old
    exact old

namespace Searching

theorem done_of_reaches (inv : g.Searching marks stack) (done : markOf marks m = .done)
    (path : g.Reaches m k) : markOf marks k = .done := by
  induction path with
  | refl => exact done
  | tail _ calls ih => exact inv.closed _ ih _ calls

/-- All that the top of the path calls is done, so it is on no cycle: a cycle would lead back to it from
something done. -/
theorem leave (inv : g.Searching marks (.leave m :: rest)) :
    g.Searching (marks.setIfInBounds m .done) rest := by
  have active : markOf marks m = .active := (inv.active_iff m).2 List.mem_cons_self
  have callees (c : MethodId) (calls : g.Calls m c) : markOf marks c = .done :=
    inv.awaits.1 m rfl c calls
  have keeps (c : MethodId) (done : markOf marks c = .done) :
      markOf (marks.setIfInBounds m .done) c = .done := by
    rw [markOf_set_done]
    split
    · rfl
    · exact done
  have mark_iff (c : MethodId) :
      markOf (marks.setIfInBounds m .done) c = .done ↔ c = m ∨ markOf marks c = .done := by
    rw [markOf_set_done]
    split
    · next same => simp [same]
    · next differs => simp [Ne.symm differs]
  refine ⟨fun k => ?_, inv.nodup.of_cons, inv.linked.2, inv.awaits.2.mono fun c => ?_,
    fun k done c calls => ?_, fun k done => ?_⟩
  · rw [markOf_set_done]
    split
    · next same =>
      subst same
      exact iff_of_false (by decide) (List.nodup_cons.1 inv.nodup).1
    · next differs =>
      rw [inv.active_iff]
      exact List.mem_cons.trans (or_iff_right (Ne.symm differs))
  · rw [mark_iff]
    exact Or.symm
  · rcases (mark_iff k).1 done with rfl | before
    · exact keeps c (callees c calls)
    · exact keeps c (inv.closed k before c calls)
  · rcases (mark_iff k).1 done with rfl | before
    · intro cycle
      obtain ⟨c, calls, path⟩ := TransGen.head'_iff.1 cycle
      rw [inv.done_of_reaches (callees c calls) path] at active
      contradiction
    · exact inv.acyclic k before

theorem skip (inv : g.Searching marks (.enter m :: rest)) (done : markOf marks m = .done) :
    g.Searching marks rest where
  active_iff := inv.active_iff
  nodup := inv.nodup
  linked := inv.linked.2
  awaits := inv.awaits.2.mono fun _ old => old.elim id fun same => same ▸ done
  closed := inv.closed
  acyclic := inv.acyclic

/-- Each method that the entered one calls is done or put on the stack above it. -/
theorem enter (inv : g.Searching marks (.enter m :: rest)) (new : markOf marks m = .new)
    (entered : g.enter marks m rest = some (marks', stack)) : g.Searching marks' stack := by
  unfold CallGraph.enter at entered
  dsimp only at entered
  split at entered
  · contradiction
  next none =>
  cases entered
  have mark_iff (c : MethodId) :
      markOf (marks.setIfInBounds m .active) c = .done ↔ markOf marks c = .done := by
    rw [markOf_set_active new]
    split
    · next same => simp [← same, new]
    · rfl
  have fresh : m ∉ pathOf rest := by
    intro member
    rw [(inv.active_iff m).2 member] at new
    contradiction
  refine ⟨fun k => ?_, ?_, Linked.push inv.linked fun c member => ?_, Awaits.push ⟨?_, ?_⟩,
    fun k done c calls => ?_, fun k done => ?_⟩
  · rw [markOf_set_active new, pathOf_map_enter]
    split
    · next same => exact iff_of_true rfl (same ▸ List.mem_cons_self)
    · next differs =>
      rw [inv.active_iff]
      exact (List.mem_cons.trans (or_iff_right (Ne.symm differs))).symm
  · rw [pathOf_map_enter]
    exact List.nodup_cons.2 ⟨fresh, inv.nodup⟩
  · exact (List.mem_filter.1 (List.mem_reverse.1 member)).1
  · intro n top c calls
    obtain rfl := Visit.leave.inj top
    cases mark : markOf (marks.setIfInBounds m .active) c with
    | new => exact .inr (by simp [mark]; exact calls)
    | active => exact absurd (List.any_eq_true.2 ⟨c, calls, by simpa using mark⟩) none
    | done => exact .inl rfl
  · refine inv.awaits.2.mono fun c old => ?_
    rcases old with done | same
    · exact .inl (.inl ((mark_iff c).2 done))
    · exact .inr same
  · exact (mark_iff c).2 (inv.closed k ((mark_iff k).1 done) c calls)
  · exact inv.acyclic k ((mark_iff k).1 done)

theorem visit {v : Visit} (inv : g.Searching marks (v :: rest))
    (turned : g.visit marks rest v = some (marks', stack)) : g.Searching marks' stack := by
  cases v with
  | leave m =>
    cases turned
    exact inv.leave
  | enter m =>
    unfold CallGraph.visit at turned
    dsimp only at turned
    split at turned
    · contradiction
    · next done =>
      cases turned
      exact inv.skip done
    · next new => exact inv.enter new turned

theorem exists_cycle_of_visit {v : Visit} (inv : g.Searching marks (v :: rest))
    (failed : g.visit marks rest v = none) : ∃ m, TransGen g.Calls m m := by
  cases v with
  | leave m => contradiction
  | enter m =>
    unfold CallGraph.visit at failed
    dsimp only at failed
    split at failed
    · next active => exact ⟨m, inv.linked.transGen ((inv.active_iff m).1 active)⟩
    · contradiction
    · next new =>
      unfold CallGraph.enter at failed
      dsimp only at failed
      split at failed
      · next back =>
        obtain ⟨c, calls, active⟩ := List.any_eq_true.1 back
        rw [decide_eq_true_eq, markOf_set_active new] at active
        split at active
        · next same => exact ⟨m, .single (same ▸ calls)⟩
        · exact ⟨c, (inv.linked.transGen ((inv.active_iff c).1 active)).tail calls⟩
      · contradiction

theorem search (inv : g.Searching marks stack) :
    (g.search marks stack = none → ∃ m, TransGen g.Calls m m) ∧
    ∀ marks', g.search marks stack = some marks' → g.Searching marks' [] := by
  fun_induction g.search marks stack with
  | case1 marks => exact ⟨fun h => by contradiction, fun _ h => Option.some.inj h ▸ inv⟩
  | case2 marks v rest failed =>
    exact ⟨fun _ => inv.exists_cycle_of_visit failed, fun _ h => by contradiction⟩
  | case3 marks v rest marks' stack turned ih => exact ih (inv.visit turned)

end Searching

/-! How far a search comes: what was on the stack is done when it is over. -/

theorem enter_done (new : markOf marks m = .new)
    (entered : g.enter marks m rest = some (marks', stack)) :
    (∀ k, markOf marks k = .done → markOf marks' k = .done) ∧
    .leave m ∈ stack ∧ ∀ v ∈ rest, v ∈ stack := by
  unfold enter at entered
  dsimp only at entered
  split at entered
  · contradiction
  cases entered
  refine ⟨fun k done => ?_, by simp, fun v member => by simp [member]⟩
  rw [markOf_set_active new, if_neg, done]
  rintro rfl
  rw [new] at done
  contradiction

theorem visit_done {v : Visit} (turned : g.visit marks rest v = some (marks', stack)) :
    (∀ k, markOf marks k = .done → markOf marks' k = .done) ∧
    (markOf marks' v.method = .done ∨ .leave v.method ∈ stack) ∧ ∀ w ∈ rest, w ∈ stack := by
  cases v with
  | leave m =>
    cases turned
    refine ⟨fun k done => ?_, .inl ?_, fun _ => id⟩
    · rw [markOf_set_done, done, ite_self]
    · rw [markOf_set_done]
      exact if_pos rfl
  | enter m =>
    unfold visit at turned
    dsimp only at turned
    split at turned
    · contradiction
    · next done =>
      cases turned
      exact ⟨fun _ => id, .inl done, fun _ => id⟩
    · next new =>
      obtain ⟨kept, waits, below⟩ := enter_done new turned
      exact ⟨kept, .inr waits, below⟩

theorem search_done (searched : g.search marks stack = some marks') :
    (∀ k, markOf marks k = .done → markOf marks' k = .done) ∧
    ∀ v ∈ stack, markOf marks' v.method = .done := by
  fun_induction g.search marks stack with
  | case1 marks =>
    cases searched
    exact ⟨fun _ => id, fun _ none => by contradiction⟩
  | case2 marks v rest failed => contradiction
  | case3 marks v rest next stack turned ih =>
    obtain ⟨kept, finished⟩ := ih searched
    obtain ⟨before, own, below⟩ := visit_done turned
    refine ⟨fun k done => kept k (before k done), fun w member => ?_⟩
    rcases List.mem_cons.1 member with rfl | deeper
    · rcases own with done | waits
      · exact kept _ done
      · exact finished (.leave _) waits
    · exact finished w (below w deeper)

/-! The searches from all methods. -/

theorem Searching.not_active (inv : g.Searching marks []) (m : MethodId) : markOf marks m ≠ .active :=
  fun active => List.not_mem_nil ((inv.active_iff m).1 active)

theorem Searching.root (inv : g.Searching marks []) (m : MethodId) :
    g.Searching marks [.enter m] where
  active_iff := inv.active_iff
  nodup := inv.nodup
  linked := ⟨fun _ none => by contradiction, trivial⟩
  awaits := ⟨fun _ leaves => by contradiction, trivial⟩
  closed := inv.closed
  acyclic := inv.acyclic

theorem Searching.searchFrom (inv : g.Searching marks []) (root : MethodId) :
    (g.searchFrom marks root = none → ∃ m, TransGen g.Calls m m) ∧
    ∀ marks', g.searchFrom marks root = some marks' →
      g.Searching marks' [] ∧ (∀ k, markOf marks k = .done → markOf marks' k = .done) ∧
      markOf marks' root = .done := by
  unfold CallGraph.searchFrom
  split
  · obtain ⟨cyclic, kept⟩ := (inv.root root).search
    refine ⟨cyclic, fun marks' searched => ?_⟩
    obtain ⟨before, finished⟩ := search_done searched
    exact ⟨kept marks' searched, before, finished _ List.mem_cons_self⟩
  · next old =>
    refine ⟨fun h => by contradiction, fun marks' h => ?_⟩
    cases h
    refine ⟨inv, fun _ => id, ?_⟩
    cases mark : markOf marks root with
    | new => exact absurd mark old
    | active => exact absurd mark (inv.not_active root)
    | done => rfl

theorem Searching.foldlM (inv : g.Searching marks []) (roots : List MethodId) :
    (roots.foldlM g.searchFrom marks = none → ∃ m, TransGen g.Calls m m) ∧
    ∀ marks', roots.foldlM g.searchFrom marks = some marks' →
      g.Searching marks' [] ∧ (∀ k, markOf marks k = .done → markOf marks' k = .done) ∧
      ∀ root ∈ roots, markOf marks' root = .done := by
  induction roots generalizing marks with
  | nil =>
    refine ⟨fun h => by contradiction, fun marks' h => ?_⟩
    cases h
    exact ⟨inv, fun _ => id, fun _ none => by contradiction⟩
  | cons root roots ih =>
    obtain ⟨cyclic, kept⟩ := inv.searchFrom root
    rw [List.foldlM_cons]
    cases first : g.searchFrom marks root with
    | none => exact ⟨fun _ => cyclic first, fun _ h => by contradiction⟩
    | some next =>
      obtain ⟨inv', before, own⟩ := kept next first
      refine ⟨(ih inv').1, fun marks' searched => ?_⟩
      obtain ⟨last, after, others⟩ := (ih inv').2 marks' searched
      refine ⟨last, fun k done => after k (before k done), fun m member => ?_⟩
      rcases List.mem_cons.1 member with rfl | later
      · exact after _ own
      · exact others m later

theorem searching_start (g : CallGraph) : g.Searching (Array.replicate g.size .new) [] := by
  have mark (m : MethodId) :
      markOf (Array.replicate g.size .new) m = if m < g.size then .new else .done := by
    unfold markOf
    rw [Array.getElem?_replicate]
    split <;> rfl
  have outside {m : MethodId} (done : markOf (Array.replicate g.size .new) m = .done) (c : MethodId) :
      ¬g.Calls m c := by
    intro calls
    rw [mark, if_pos (lt_size_of_calls calls)] at done
    contradiction
  refine ⟨fun m => iff_of_false ?_ List.not_mem_nil, List.nodup_nil, trivial, trivial,
    fun m done c calls => absurd calls (outside done c), fun m done cycle => ?_⟩
  · rw [mark]
    split <;> decide
  · obtain ⟨c, calls, _⟩ := TransGen.head'_iff.1 cycle
    exact outside done c calls

theorem isAcyclic_iff (g : CallGraph) : g.isAcyclic = true ↔ g.Acyclic := by
  obtain ⟨cyclic, kept⟩ := (searching_start g).foldlM (List.range g.size)
  unfold isAcyclic
  cases searched : (List.range g.size).foldlM g.searchFrom (Array.replicate g.size .new) with
  | none =>
    obtain ⟨m, cycle⟩ := cyclic searched
    exact iff_of_false (by decide) fun acyclic => acyclic m cycle
  | some marks =>
    obtain ⟨inv, _, finished⟩ := kept marks searched
    refine iff_of_true rfl fun m cycle => ?_
    obtain ⟨c, calls, _⟩ := TransGen.head'_iff.1 cycle
    exact inv.acyclic m (finished m (List.mem_range.2 (lt_size_of_calls calls))) cycle

/-! The loops come to an end. -/

/-- One turn of the search; one that has failed or is over stays as it is. -/
def turn (g : CallGraph) : Option (Array Mark × List Visit) → Option (Array Mark × List Visit)
  | some (marks, v :: rest) => g.visit marks rest v
  | ended => ended

theorem exists_iterate_turn (g : CallGraph) (marks : Array Mark) (stack : List Visit) :
    ∃ turns, g.turn^[turns] (some (marks, stack)) = (g.search marks stack).map (·, []) := by
  fun_induction g.search marks stack with
  | case1 marks => exact ⟨0, rfl⟩
  | case2 marks v rest failed => exact ⟨1, failed⟩
  | case3 marks v rest next stack turned ih =>
    obtain ⟨turns, ended⟩ := ih
    refine ⟨turns + 1, ?_⟩
    rw [Function.iterate_succ_apply, ← ended]
    exact congrArg _ turned

theorem exists_iterate_sweep (g : CallGraph) (known : List MethodId) :
    (∃ sweeps ≤ g.strangers known, g.sweep^[sweeps] known = g.reaching known) ∧
    g.sweep (g.reaching known) = g.reaching known := by
  fun_induction g.reaching known with
  | case1 known closed => exact ⟨⟨0, Nat.zero_le _, rfl⟩, closed⟩
  | case2 known more ih =>
    obtain ⟨⟨sweeps, few, ended⟩, closed⟩ := ih
    refine ⟨⟨sweeps + 1, ?_, ended⟩, closed⟩
    have := strangers_lt more
    omega

theorem strangers_le_size (g : CallGraph) (known : List MethodId) : g.strangers known ≤ g.size := by
  unfold strangers
  exact (List.countP_le_length ..).trans_eq List.length_range

/-- On every graph, whether its calls form cycles or not, the search finds out that they form none, not
even from a method to itself, exactly if they do not, and the ancestors are the methods from which a
possibly empty chain of calls leads to the method, each once. Both loops come to an end: the search
after finitely many turns, from whatever marks and stack, and the sweeps after as many as there are
methods, when one more would change nothing. -/
theorem traversals_exact (g : CallGraph) :
    (g.isAcyclic = true ↔ ∀ m, ¬TransGen g.Calls m m) ∧
    (∀ m, (∀ k, k ∈ g.ancestors m ↔ ReflTransGen g.Calls k m) ∧
      (g.ancestors m).Pairwise (· < ·) ∧ ∀ k ∈ g.ancestors m, m < g.size → k < g.size) ∧
    (∀ marks stack, ∃ turns,
      g.turn^[turns] (some (marks, stack)) = (g.search marks stack).map (·, [])) ∧
    ∀ m, (∃ sweeps ≤ g.size, g.sweep^[sweeps] [m] = g.ancestors m) ∧
      g.sweep (g.ancestors m) = g.ancestors m := by
  refine ⟨isAcyclic_iff g, fun m => ⟨fun k => mem_ancestors, pairwise_ancestors g m, ?_⟩,
    exists_iterate_turn g, fun m => ?_⟩
  · intro k member inside
    rcases (mem_ancestors.1 member).cases_head with rfl | ⟨c, calls, _⟩
    · exact inside
    · exact lt_size_of_calls calls
  · obtain ⟨⟨sweeps, few, ended⟩, closed⟩ := exists_iterate_sweep g [m]
    exact ⟨⟨sweeps, few.trans (strangers_le_size g [m]), ended⟩, closed⟩

end JavaSmith.CallGraph
