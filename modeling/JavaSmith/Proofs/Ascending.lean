import JavaSmith.Ascending
import Mathlib.Data.List.Sort

/-! Ascending lists stay ascending when a member is added. -/
namespace JavaSmith

variable {α : Type} [LT α] [DecidableLT α] [DecidableEq α] [IsStrictTotalOrder α (· < ·)]

theorem pairwise_insertAscending (a : α) {xs : List α} (h : xs.Pairwise (· < ·)) :
    (insertAscending a xs).Pairwise (· < ·) := by
  induction xs with
  | nil => simp [insertAscending]
  | cons b rest ih =>
    have below : ∀ c ∈ rest, b < c := fun c member => List.rel_of_pairwise_cons h member
    unfold insertAscending
    split
    · next less =>
      refine List.pairwise_cons.2 ⟨fun c member => ?_, h⟩
      rcases List.mem_cons.1 member with first | later
      · exact first ▸ less
      · exact IsTrans.trans a b c less (below c later)
    · split
      · exact h
      · next notLess differs =>
        refine List.pairwise_cons.2 ⟨fun c member => ?_, ih h.of_cons⟩
        rcases mem_insertAscending.1 member with new | later
        · subst new
          exact ((trichotomous_of (· < ·) c b).resolve_left notLess).resolve_left differs
        · exact below c later

theorem pairwise_ascending (xs : List α) : (ascending xs).Pairwise (· < ·) := by
  induction xs with
  | nil => exact List.Pairwise.nil
  | cons a rest ih => exact pairwise_insertAscending a ih

end JavaSmith
