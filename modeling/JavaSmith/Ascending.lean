/-! Finite sets as lists kept strictly ascending. -/
namespace JavaSmith

/-- Adds a member to an ascending list, once. -/
def insertAscending [LT α] [DecidableLT α] [DecidableEq α] (a : α) : List α → List α
  | [] => [a]
  | b :: rest =>
    if a < b then a :: b :: rest else if a = b then b :: rest else b :: insertAscending a rest

@[simp] theorem mem_insertAscending [LT α] [DecidableLT α] [DecidableEq α] {a b : α}
    {xs : List α} : b ∈ insertAscending a xs ↔ b = a ∨ b ∈ xs := by
  induction xs with
  | nil => simp [insertAscending]
  | cons c rest ih =>
    unfold insertAscending
    split
    · simp
    · split
      · next e => subst e; simp
      · simp only [List.mem_cons, ih]
        exact ⟨fun h => by rcases h with h | h | h <;> simp [h], fun h => by
          rcases h with h | h | h <;> simp [h]⟩

def ascending [LT α] [DecidableLT α] [DecidableEq α] (xs : List α) : List α :=
  xs.foldr insertAscending []

@[simp] theorem mem_ascending [LT α] [DecidableLT α] [DecidableEq α] {a : α} {xs : List α} :
    a ∈ ascending xs ↔ a ∈ xs := by
  induction xs with
  | nil => simp [ascending]
  | cons b rest ih =>
    have : ascending (b :: rest) = insertAscending b (ascending rest) := rfl
    simp [this, ih]

end JavaSmith
