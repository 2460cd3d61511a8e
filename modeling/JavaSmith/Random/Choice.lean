import JavaSmith.Random.Uniform

/-! Choices among candidates. Where the number of candidates is known one draw settles the matter;
where they are met one by one, each takes the place of the one chosen so far with probability one
over the count of those met. -/
namespace JavaSmith.Random

/-- One of the list, by a single draw; nothing is drawn from an empty list. -/
def choose (xs : List α) : Draw (Option α) :=
  if xs.isEmpty then return none
  else do
    let i ← index xs.length
    return xs[i]?

/-- The candidate kept so far after `met` of them, then the rest. -/
def reservoir (met : Nat) (kept : Option α) : List α → Draw (Option α)
  | [] => return kept
  | x :: rest => do
    let i ← index (met + 1)
    reservoir (met + 1) (if i = 0 then some x else kept) rest

/-- One of the list, by a draw for each of its members. -/
def chooseOneByOne (xs : List α) : Draw (Option α) := reservoir 0 none xs

/-- Swaps every place from `last` down to the second with one not after it. -/
def shuffleFrom (xs : Array α) : (last : Nat) → Draw (Array α)
  | 0 => return xs
  | last + 1 => do
    let j ← index (last + 2)
    shuffleFrom (xs.swapIfInBounds (last + 1) j) last

def shuffle (xs : List α) : Draw (List α) := do
  let shuffled ← shuffleFrom xs.toArray (xs.length - 1)
  return shuffled.toList

/-- First of the weighted candidates at which the running sum of the weights exceeds `target`. -/
def atWeight (target : Nat) : List (α × Nat) → Option α
  | [] => none
  | (x, weight) :: rest => if target < weight then some x else atWeight (target - weight) rest

def totalWeight : List (α × Nat) → Nat
  | [] => 0
  | (_, weight) :: rest => weight + totalWeight rest

/-- A candidate with probability proportional to its weight; `none`, and nothing drawn, if all
weights are zero. -/
def chooseByShare (xs : List (α × Nat)) : Draw (Option α) :=
  let total := totalWeight xs
  if total = 0 then return none
  else do
    let target ← indexExact total
    return atWeight target xs

theorem reservoir_mem {xs : List α} {met : Nat} {kept : Option α} {s : Stream} {x : α}
    (h : (reservoir met kept xs s).1 = some x) : x ∈ xs ∨ kept = some x := by
  induction xs generalizing met kept s with
  | nil => exact .inr h
  | cons y rest ih =>
    simp only [reservoir, bind, StateT.bind] at h
    rcases ih h with member | e
    · exact .inl (.tail _ member)
    · split at e
      · exact .inl (by simp_all)
      · exact .inr e

theorem chooseOneByOne_mem {xs : List α} {s : Stream} {x : α}
    (h : (chooseOneByOne xs s).1 = some x) : x ∈ xs := by
  rcases reservoir_mem h with member | e
  · exact member
  · exact absurd e (by simp)

theorem choose_mem {xs : List α} {s : Stream} {x : α} (h : (choose xs s).1 = some x) : x ∈ xs := by
  unfold choose at h
  split at h
  · exact absurd (show none = some x from h) (by simp)
  · exact List.mem_of_getElem? h

end JavaSmith.Random
