import JavaSmith.Ascending

/-! Calls between methods, kept free of cycles. Beside the callees of each method the graph keeps the
methods it must not call: those it can be reached from, itself included. A new edge hands the set of
the caller down to everything reachable from the callee; since sets only grow along edges, the walk
stops wherever nothing is new. The two traversals at the end do not look at these sets. -/
namespace JavaSmith

/-- Methods are numbered in the order of their declaration. Numbers have no bound; those below `2 ^ 32` are
what 32-bit words would be. -/
abbrev MethodId := Nat

structure CallGraph where
  callees : Array (List MethodId)
  excluded : Array (List MethodId)
  deriving Inhabited

namespace CallGraph

def empty : CallGraph := ⟨#[], #[]⟩

def size (g : CallGraph) : Nat := g.callees.size

def calleesOf (g : CallGraph) (m : MethodId) : List MethodId := g.callees[m]?.getD []

/-- Methods that `m` must not call. -/
def excludedFor (g : CallGraph) (m : MethodId) : List MethodId := g.excluded[m]?.getD []

def addMethod (g : CallGraph) : CallGraph :=
  ⟨g.callees.push [], g.excluded.push [g.size]⟩

def union (xs ys : List MethodId) : List MethodId := xs.foldr insertAscending ys

@[simp] theorem mem_union {xs ys : List MethodId} {m : MethodId} :
    m ∈ union xs ys ↔ m ∈ xs ∨ m ∈ ys := by
  induction xs with
  | nil => simp [union]
  | cons x rest ih =>
    have : union (x :: rest) ys = insertAscending x (union rest ys) := rfl
    simp [this, ih, or_assoc]

def lacks (handed set : List MethodId) : Bool := !handed.all set.contains

theorem lacks_union (handed set : List MethodId) : lacks handed (union handed set) = false := by
  simp [lacks]
  exact fun x h => .inl h

/-- Adds `handed` to the sets of all methods on the stack and, from those that lacked some of it, to
those of their callees. -/
def handDown (callees : Array (List MethodId)) (handed : List MethodId)
    (excluded : Array (List MethodId)) : (stack : List MethodId) → Array (List MethodId)
  | [] => excluded
  | m :: rest =>
    if h : m < excluded.size then
      if lacks handed excluded[m] then
        handDown callees handed (excluded.set m (union handed excluded[m]))
          (callees[m]?.getD [] ++ rest)
      else handDown callees handed excluded rest
    else handDown callees handed excluded rest
termination_by stack => (excluded.countP (lacks handed), stack.length)
decreasing_by
  · next lacking =>
    apply Prod.Lex.left
    have positive : 0 < excluded.countP (lacks handed) :=
      Array.countP_pos_iff.2 ⟨excluded[m], Array.getElem_mem h, lacking⟩
    rw [Array.countP_set, lacks_union, lacking]
    simp only [if_true, Bool.false_eq_true, if_false]
    omega
  · exact Prod.Lex.right _ (Nat.lt_succ_self _)
  · exact Prod.Lex.right _ (Nat.lt_succ_self _)

/-- The graph with the call, or `none` if it would close a cycle. A call already present changes
nothing. -/
def addEdge? (g : CallGraph) (caller callee : MethodId) : Option CallGraph :=
  if (g.excludedFor caller).contains callee then none
  else if (g.calleesOf caller).contains callee then some g
  else
    let callees := g.callees.modify caller (insertAscending callee)
    some ⟨callees, handDown callees (g.excludedFor caller) g.excluded [callee]⟩

inductive Mark where
  | new
  | active
  | done
  deriving DecidableEq, Inhabited

/-- What waits on the stack of a search: a method to be entered, or one that was entered and is left when
all it calls is done. -/
inductive Visit where
  | enter (m : MethodId)
  | leave (m : MethodId)
  deriving DecidableEq, Inhabited

/-- A number that is none of a method stands for one that calls nothing. -/
def markOf (marks : Array Mark) (m : MethodId) : Mark := marks[m]?.getD .done

/-- Enters a new method, unless it calls one that is active; what it calls and is new is to be entered
before the method is left. -/
def enter (g : CallGraph) (marks : Array Mark) (m : MethodId) (rest : List Visit) :
    Option (Array Mark × List Visit) :=
  let entered := marks.setIfInBounds m .active
  if (g.calleesOf m).any fun c => markOf entered c = .active then none
  else
    let unmet := (g.calleesOf m).filter fun c => markOf entered c = .new
    some (entered, unmet.reverse.map Visit.enter ++ .leave m :: rest)

/-- One turn of a depth-first search, which takes what is on top of the stack; `none` if it comes back to
a method that is active. A method can be on the stack several times and is new for the first alone. -/
def visit (g : CallGraph) (marks : Array Mark) (rest : List Visit) :
    Visit → Option (Array Mark × List Visit)
  | .leave m => some (marks.setIfInBounds m .done, rest)
  | .enter m =>
    match markOf marks m with
    | .active => none
    | .done => some (marks, rest)
    | .new => g.enter marks m rest

def countNew (marks : Array Mark) : Nat := marks.countP (· = .new)

theorem countNew_set_le (marks : Array Mark) (m : MethodId) {mark : Mark} (h : mark ≠ .new) :
    countNew (marks.setIfInBounds m mark) ≤ countNew marks := by
  unfold countNew Array.setIfInBounds
  split
  · rw [Array.countP_set]
    simp [h]
  · exact Nat.le_refl _

theorem countNew_set_lt {marks : Array Mark} {m : MethodId} (h : markOf marks m = .new) :
    countNew (marks.setIfInBounds m .active) < countNew marks := by
  have found : marks[m]? = some .new := by
    unfold markOf at h
    cases looked : marks[m]? with
    | none =>
      rw [looked] at h
      contradiction
    | some mark => exact congrArg some (by rwa [looked] at h)
  obtain ⟨inside, here⟩ := Array.getElem?_eq_some_iff.1 found
  have positive : 0 < marks.countP (· = .new) :=
    Array.countP_pos_iff.2 ⟨marks[m], Array.getElem_mem inside, by simp [here]⟩
  unfold countNew Array.setIfInBounds
  rw [dif_pos inside, Array.countP_set, here]
  exact Nat.sub_lt positive Nat.one_pos

theorem visit_decreases {g : CallGraph} {marks marks' : Array Mark} {v : Visit}
    {rest stack : List Visit} (h : g.visit marks rest v = some (marks', stack)) :
    countNew marks' < countNew marks ∨
      countNew marks' = countNew marks ∧ stack.length ≤ rest.length := by
  unfold visit at h
  split at h
  · next m =>
    cases h
    have other : Mark.done ≠ .new := by decide
    rcases Nat.lt_or_eq_of_le (countNew_set_le marks m other) with fewer | same
    · exact .inl fewer
    · exact .inr ⟨same, Nat.le_refl _⟩
  · split at h
    · contradiction
    · cases h
      exact .inr ⟨rfl, Nat.le_refl _⟩
    · next new =>
      unfold enter at h
      dsimp only at h
      split at h
      · contradiction
      · cases h
        exact .inl (countNew_set_lt new)

/-- Searches until the stack is empty and gives the marks it leaves behind; `none` if a turn gives
none. -/
def search (g : CallGraph) (marks : Array Mark) : (stack : List Visit) → Option (Array Mark)
  | [] => some marks
  | v :: rest =>
    match _h : g.visit marks rest v with
    | none => none
    | some (marks', stack) => g.search marks' stack
termination_by stack => (countNew marks, stack.length)
decreasing_by
  rcases visit_decreases _h with fewer | ⟨same, shorter⟩
  · exact Prod.Lex.left _ _ fewer
  · rw [same]
    exact Prod.Lex.right _ (Nat.lt_succ_of_le shorter)

def searchFrom (g : CallGraph) (marks : Array Mark) (root : MethodId) : Option (Array Mark) :=
  if markOf marks root = .new then g.search marks [.enter root] else some marks

/-- Searches from every method that no search before has met. -/
def isAcyclic (g : CallGraph) : Bool :=
  ((List.range g.size).foldlM g.searchFrom (Array.replicate g.size .new)).isSome

def addCaller (g : CallGraph) (known : List MethodId) (m : MethodId) : List MethodId :=
  if !known.contains m && (g.calleesOf m).any known.contains then insertAscending m known else known

def sweep (g : CallGraph) (known : List MethodId) : List MethodId :=
  (List.range g.size).foldl g.addCaller known

def strangers (g : CallGraph) (known : List MethodId) : Nat :=
  (List.range g.size).countP fun m => !known.contains m

theorem subset_addCaller (g : CallGraph) (known : List MethodId) (m : MethodId) :
    known ⊆ g.addCaller known m := by
  unfold addCaller
  split
  · exact fun k old => mem_insertAscending.2 (.inr old)
  · exact List.Subset.refl _

theorem subset_foldl_addCaller (g : CallGraph) (methods known : List MethodId) :
    known ⊆ methods.foldl g.addCaller known := by
  induction methods generalizing known with
  | nil => exact List.Subset.refl _
  | cons m rest ih => exact List.Subset.trans (subset_addCaller g known m) (ih _)

theorem addCaller_eq_or_new (g : CallGraph) (known : List MethodId) (m : MethodId) :
    g.addCaller known m = known ∨ m ∉ known ∧ m ∈ g.addCaller known m := by
  unfold addCaller
  split
  · next caller =>
    have new : !known.contains m := (Bool.and_eq_true_iff.1 caller).1
    exact .inr ⟨by simpa using new, mem_insertAscending.2 (.inl rfl)⟩
  · exact .inl rfl

/-- A sweep that changes anything adds a method of the graph. -/
theorem exists_new_of_foldl {g : CallGraph} {methods known : List MethodId}
    (h : methods.foldl g.addCaller known ≠ known) :
    ∃ m ∈ methods, m ∉ known ∧ m ∈ methods.foldl g.addCaller known := by
  induction methods generalizing known with
  | nil => contradiction
  | cons m rest ih =>
    rcases addCaller_eq_or_new g known m with same | ⟨new, added⟩
    · rw [List.foldl_cons, same] at h
      obtain ⟨k, member, new, added⟩ := ih h
      refine ⟨k, List.mem_cons_of_mem _ member, new, ?_⟩
      rwa [List.foldl_cons, same]
    · exact ⟨m, List.mem_cons_self, new, subset_foldl_addCaller g rest _ added⟩

theorem strangers_lt {g : CallGraph} {known : List MethodId} (h : g.sweep known ≠ known) :
    g.strangers (g.sweep known) < g.strangers known := by
  obtain ⟨m, inside, new, added⟩ := exists_new_of_foldl h
  unfold strangers
  rw [List.countP_eq_length_filter, List.countP_eq_length_filter]
  have sub : (List.range g.size).filter (fun k => !(g.sweep known).contains k) =
      ((List.range g.size).filter fun k => !known.contains k).filter
        fun k => !(g.sweep known).contains k := by
    rw [List.filter_filter]
    congr 1
    funext k
    have kept : k ∈ known → k ∈ g.sweep known := fun old => subset_foldl_addCaller _ _ _ old
    by_cases old : k ∈ known
    · simp [kept old]
    · simp [old]
  rw [sub]
  have stranger : m ∈ (List.range g.size).filter fun k => !known.contains k :=
    List.mem_filter.2 ⟨inside, by simpa using new⟩
  exact List.length_filter_lt_length_iff_exists.2 ⟨m, stranger, by simpa [sweep] using added⟩

def reaching (g : CallGraph) (known : List MethodId) : List MethodId :=
  if _h : g.sweep known = known then known else g.reaching (g.sweep known)
termination_by g.strangers known
decreasing_by exact strangers_lt _h

/-- The methods from which `m` is reachable, itself included, in ascending order. -/
def ancestors (g : CallGraph) (m : MethodId) : List MethodId := g.reaching [m]

end CallGraph
end JavaSmith
