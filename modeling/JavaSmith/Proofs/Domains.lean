import JavaSmith.Ty.Assign
import JavaSmith.Proofs.Ascending
import Mathlib.Data.List.Nodup
import Mathlib.Data.List.Perm.Subperm

/-! Domains as sets of integers, and restrictions whose domain fits their kind. -/
namespace JavaSmith

namespace Domain

def Ordered : Domain → Prop
  | .set members => members.Pairwise (· < ·)
  | .range _ _ => True

theorem ordered_ofList (values : List Int) : (ofList values).Ordered := pairwise_ascending values

theorem not_holds_of_isEmpty {d : Domain} (h : d.isEmpty = true) (n : Int) : d.holds n = false := by
  cases d with
  | set members =>
    cases members with
    | nil => rfl
    | cons a rest => contradiction
  | range lo hi =>
    have reversed : hi < lo := by simpa [isEmpty, min?] using h
    refine Bool.eq_false_iff.2 fun held => ?_
    have := holds_range.1 held
    omega

theorem holds_of_contains {outer inner : Domain} (h : outer.contains inner = true) {n : Int}
    (held : inner.holds n = true) : outer.holds n = true := by
  unfold contains at h
  rcases Bool.or_eq_true_iff.1 h with empty | within
  · rw [not_holds_of_isEmpty empty] at held
    contradiction
  · cases inner with
    | set members =>
      have all : members.all outer.holds = true := by cases outer <;> exact within
      exact List.all_eq_true.1 all n (by simpa [holds] using held)
    | range lo' hi' =>
      have between := holds_range.1 held
      cases outer with
      | range lo hi =>
        have ends : lo ≤ lo' ∧ hi' ≤ hi := by simpa using within
        exact holds_range.2 ⟨by omega, by omega⟩
      | set members =>
        have walked := (Bool.and_eq_true_iff.1 within).2
        exact (holdsFrom_iff _ _ _).1 walked n between.1 (by omega)

theorem contains_refl (d : Domain) : d.contains d = true := by
  unfold contains
  refine Bool.or_eq_true_iff.2 (.inr ?_)
  cases d with
  | set members => exact List.all_eq_true.2 fun n member => by simpa [holds] using member
  | range lo hi => simp

theorem length_le_of_subset {lo : Int} {count : Nat} {members : List Int}
    (within : ∀ n, lo ≤ n → n < lo + count → n ∈ members) : count ≤ members.length := by
  have distinct : ((List.range count).map fun i : Nat => lo + i).Nodup := by
    refine List.nodup_range.map fun i j same => ?_
    omega
  have subset : ((List.range count).map fun i : Nat => lo + i) ⊆ members := by
    intro n member
    obtain ⟨i, below, rfl⟩ := List.mem_map.1 member
    have := List.mem_range.1 below
    exact within _ (by omega) (by omega)
  simpa using (List.subperm_of_subset distinct subset).length_le

/-- `contains` decides inclusion. -/
theorem contains_of_forall {outer inner : Domain}
    (within : ∀ n, inner.holds n = true → outer.holds n = true) : outer.contains inner = true := by
  unfold contains
  by_cases empty : inner.isEmpty = true
  · rw [empty]
    rfl
  refine Bool.or_eq_true_iff.2 (.inr ?_)
  cases inner with
  | set members =>
    exact List.all_eq_true.2 fun n member => within n (by simpa [holds] using member)
  | range lo hi =>
    have ordered : lo ≤ hi := by simpa [isEmpty, min?] using empty
    have between (n : Int) (low : lo ≤ n) (high : n ≤ hi) : outer.holds n = true :=
      within n (holds_range.2 ⟨low, high⟩)
    cases outer with
    | range lo' hi' =>
      have low := holds_range.1 (between lo (Int.le_refl _) ordered)
      have high := holds_range.1 (between hi ordered (Int.le_refl _))
      exact Bool.and_eq_true_iff.2 ⟨decide_eq_true low.1, decide_eq_true high.2⟩
    | set members =>
      have size : ((hi - lo + 1).toNat : Int) = hi - lo + 1 := by omega
      have short : (hi - lo + 1).toNat ≤ members.length :=
        length_le_of_subset fun n low high => by
          simpa [holds] using between n low (by omega)
      refine Bool.and_eq_true_iff.2 ⟨decide_eq_true (by omega), ?_⟩
      exact (holdsFrom_iff _ _ _).2 fun n low high => between n low (by omega)

theorem contains_trans {a b c : Domain} (h : a.contains b = true) (h' : b.contains c = true) :
    a.contains c = true :=
  contains_of_forall fun _ held => holds_of_contains h (holds_of_contains h' held)

theorem min?_range (lo hi : Int) : (range lo hi).min? = if lo ≤ hi then some lo else none := rfl

theorem max?_range (lo hi : Int) : (range lo hi).max? = if lo ≤ hi then some hi else none := rfl

theorem holds_of_min? {d : Domain} {n : Int} (h : d.min? = some n) : d.holds n = true := by
  cases d with
  | set members => simpa [holds] using List.mem_of_head? h
  | range lo hi =>
    rw [min?_range] at h
    split at h
    · next ordered =>
      cases h
      exact holds_range.2 ⟨Int.le_refl _, ordered⟩
    · contradiction

theorem holds_of_max? {d : Domain} {n : Int} (h : d.max? = some n) : d.holds n = true := by
  cases d with
  | set members => simpa [holds] using List.mem_of_getLast? h
  | range lo hi =>
    rw [max?_range] at h
    split at h
    · next ordered =>
      cases h
      exact holds_range.2 ⟨ordered, Int.le_refl _⟩
    · contradiction

theorem min?_le {d : Domain} (ordered : d.Ordered) {least n : Int} (h : d.min? = some least)
    (held : d.holds n = true) : least ≤ n := by
  cases d with
  | set members =>
    cases members with
    | nil => contradiction
    | cons a rest =>
      cases h
      have member : n ∈ least :: rest := by simpa [holds] using held
      rcases List.mem_cons.1 member with rfl | later
      · exact Int.le_refl _
      · exact Int.le_of_lt (List.rel_of_pairwise_cons ordered later)
  | range lo hi =>
    have between := holds_range.1 held
    rw [min?_range, if_pos (by omega)] at h
    cases h
    exact between.1

theorem le_max? {d : Domain} (ordered : d.Ordered) {greatest n : Int} (h : d.max? = some greatest)
    (held : d.holds n = true) : n ≤ greatest := by
  cases d with
  | set members =>
    obtain ⟨before, rfl⟩ := List.getLast?_eq_some_iff.1 h
    have member : n ∈ before ++ [greatest] := by simpa [holds] using held
    rcases List.mem_append.1 member with earlier | last
    · exact Int.le_of_lt ((List.pairwise_append.1 ordered).2.2 n earlier greatest (by simp))
    · exact Int.le_of_eq (List.mem_singleton.1 last)
  | range lo hi =>
    have between := holds_range.1 held
    rw [max?_range, if_pos (by omega)] at h
    cases h
    exact between.2

theorem exists_ends {d : Domain} {n : Int} (held : d.holds n = true) :
    ∃ least greatest, d.min? = some least ∧ d.max? = some greatest := by
  cases d with
  | set members =>
    cases members with
    | nil => contradiction
    | cons a rest => exact ⟨a, (a :: rest).getLast (by simp), rfl, rfl⟩
  | range lo hi =>
    have between := holds_range.1 held
    have ordered : lo ≤ hi := by omega
    exact ⟨lo, hi, if_pos ordered, if_pos ordered⟩

theorem isEmpty_eq_false {d : Domain} {n : Int} (held : d.holds n = true) : d.isEmpty = false := by
  refine Bool.eq_false_iff.2 fun empty => ?_
  rw [not_holds_of_isEmpty empty] at held
  contradiction

theorem excludesZero_of_contains {outer inner : Domain} (h : outer.contains inner = true)
    (excludes : outer.excludesZero = true) : inner.excludesZero = true := by
  unfold excludesZero at *
  rw [Bool.not_eq_true'] at *
  refine Bool.eq_false_iff.2 fun held => ?_
  rw [holds_of_contains h held] at excludes
  contradiction

end Domain

namespace Restriction

/-- The domain is not empty and every number in it is one of the kind. -/
structure Valid (r : Restriction) : Prop where
  ordered : r.domain.Ordered
  inhabited : ∃ n, r.domain.holds n = true
  bounded : ∃ lo hi, r.base.bounds? = some (lo, hi) ∧
    ∀ n, r.domain.holds n = true → lo ≤ n ∧ n ≤ hi

/-- Restrictions made by `of?` are valid, and all valid ones can be made by it. -/
theorem of?_eq_some_iff {base : Kind} {d : Domain} (ordered : d.Ordered) {r : Restriction} :
    of? base d = some r ↔ r = ⟨base, d⟩ ∧ r.Valid := by
  constructor
  · intro made
    unfold of? at made
    split at made
    · next lo hi least greatest bounds first last =>
      split at made
      · next fits =>
        cases made
        refine ⟨rfl, ordered, ⟨least, Domain.holds_of_min? first⟩, lo, hi, bounds, ?_⟩
        intro n held
        have := Domain.min?_le ordered first held
        have := Domain.le_max? ordered last held
        omega
      · contradiction
    · contradiction
  · rintro ⟨rfl, _, ⟨n, held⟩, lo, hi, bounds, within⟩
    obtain ⟨least, greatest, first, last⟩ := Domain.exists_ends held
    have low := within least (Domain.holds_of_min? first)
    have high := within greatest (Domain.holds_of_max? last)
    dsimp only at bounds first last
    unfold of?
    rw [bounds, first, last]
    exact if_pos ⟨low.1, high.2⟩

theorem Valid.isEmpty_eq_false {r : Restriction} (valid : r.Valid) : r.domain.isEmpty = false :=
  Domain.isEmpty_eq_false valid.inhabited.choose_spec

end Restriction
end JavaSmith
