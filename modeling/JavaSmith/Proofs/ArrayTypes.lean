import JavaSmith.Ty.Basic

/-! Array types have one spelling: nested arrays have merged, and the count of dimensions stops at the
greatest. The law for the element type holds as long as the count has not stopped and fails from there
on. The same is computed with counts of eight bits, and none drops below zero. -/
namespace JavaSmith

namespace Ty

def Flat (t : Ty) : Prop := ∀ c d, t ≠ array c d

/-- All types that can be made: an array is made of what it holds arrays of, in a number of dimensions that
fits a byte. -/
inductive Made : Ty → Prop where
  | flat {t : Ty} : t.Flat → Made t
  | arrayOf {t : Ty} (n : UInt8) : Made t → Made (t.arrayOf n.toNat)

/-- An array is one of something flat, with a count of dimensions that can be described. -/
def Normal (t : Ty) : Prop := ∀ c d, t = array c d → c.Flat ∧ 1 ≤ d ∧ d ≤ maxDimensions

variable {t c : Ty} {d n : Nat}

theorem arrayOf_zero (t : Ty) : t.arrayOf 0 = t := if_pos rfl

theorem arrayOf_array (c : Ty) (d : Nat) (h : n ≠ 0) :
    (array c d).arrayOf n = array c (min maxDimensions (d + n)) := if_neg h

theorem flat_or_array (t : Ty) : t.Flat ∨ ∃ c d, t = array c d := by
  cases t with
  | array c d => exact .inr ⟨c, d, rfl⟩
  | _ => exact .inl fun c d same => by contradiction

namespace Flat

theorem normal (flat : c.Flat) : c.Normal := fun inner d same => absurd same (flat inner d)

theorem arrayOf_eq (flat : c.Flat) (h : n ≠ 0) : c.arrayOf n = array c (min maxDimensions n) := by
  unfold arrayOf
  rw [if_neg h]
  split
  · next inner d => exact absurd rfl (flat inner d)
  · rfl

theorem dimensions (flat : c.Flat) : c.dimensions = 0 := by
  unfold Ty.dimensions
  split
  · next inner d => exact absurd rfl (flat inner d)
  · rfl

theorem dimensions_arrayOf (flat : c.Flat) (n : Nat) :
    (c.arrayOf n).dimensions = min maxDimensions n := by
  rw [Ty.dimensions_arrayOf c n (flat.dimensions ▸ Nat.zero_le _), flat.dimensions, Nat.zero_add]

theorem arrayOf_arrayOf (flat : c.Flat) (d n : Nat) :
    (c.arrayOf d).arrayOf n = c.arrayOf (min maxDimensions (d + n)) := by
  have room : 0 < maxDimensions := by decide
  by_cases none : n = 0
  · subst none
    rw [arrayOf_zero]
    by_cases zero : d = 0
    · rw [zero]
      rfl
    · rw [flat.arrayOf_eq zero, flat.arrayOf_eq (by omega)]
      congr 1
      omega
  · rw [flat.arrayOf_eq (n := min maxDimensions (d + n)) (by omega)]
    by_cases zero : d = 0
    · rw [zero, arrayOf_zero, flat.arrayOf_eq none]
      congr 1
      omega
    · rw [flat.arrayOf_eq zero, arrayOf_array _ _ none]
      congr 1
      omega

theorem element?_arrayOf (flat : c.Flat) (positive : 1 ≤ d) (describable : d ≤ maxDimensions) :
    (c.arrayOf d).element? = some (c.arrayOf (d - 1)) := by
  rw [flat.arrayOf_eq (by omega), Nat.min_eq_right describable]
  rfl

theorem element? (flat : c.Flat) : c.element? = none := by
  unfold Ty.element?
  split
  · next inner d => exact absurd rfl (flat inner d)
  · rfl

end Flat

theorem normal_iff : t.Normal ↔ ∃ (c : Ty) (d : Nat), c.Flat ∧ d ≤ maxDimensions ∧ t = c.arrayOf d := by
  constructor
  · intro normal
    rcases flat_or_array t with flat | ⟨c, d, rfl⟩
    · exact ⟨t, 0, flat, Nat.zero_le _, (arrayOf_zero t).symm⟩
    · obtain ⟨flat, positive, describable⟩ := normal c d rfl
      refine ⟨c, d, flat, describable, ?_⟩
      rw [flat.arrayOf_eq (by omega), Nat.min_eq_right describable]
  · rintro ⟨c, d, flat, describable, rfl⟩
    by_cases zero : d = 0
    · subst zero
      rw [arrayOf_zero]
      exact flat.normal
    · rw [flat.arrayOf_eq zero]
      rintro _ _ ⟨⟩
      exact ⟨flat, by omega, by omega⟩

theorem Normal.arrayOf (normal : t.Normal) (n : Nat) : (t.arrayOf n).Normal := by
  obtain ⟨c, d, flat, _, rfl⟩ := normal_iff.1 normal
  exact normal_iff.2 ⟨c, _, flat, Nat.min_le_left .., flat.arrayOf_arrayOf d n⟩

theorem Made.normal (made : t.Made) : t.Normal := by
  induction made with
  | flat flat => exact flat.normal
  | arrayOf n _ ih => exact ih.arrayOf n.toNat

theorem Normal.arrayOf_arrayOf (normal : t.Normal) (k n : Nat) :
    (t.arrayOf k).arrayOf n = t.arrayOf (min maxDimensions (k + n)) := by
  obtain ⟨c, d, flat, _, rfl⟩ := normal_iff.1 normal
  rw [flat.arrayOf_arrayOf, flat.arrayOf_arrayOf, flat.arrayOf_arrayOf]
  congr 1
  omega

theorem Normal.dimensions_le (normal : t.Normal) : t.dimensions ≤ maxDimensions := by
  obtain ⟨c, d, flat, _, rfl⟩ := normal_iff.1 normal
  exact flat.dimensions_arrayOf d ▸ Nat.min_le_left ..

theorem Normal.element?_arrayOf_iff (normal : t.Normal) (positive : 1 ≤ n) :
    (t.arrayOf n).element? = some (t.arrayOf (n - 1)) ↔ t.dimensions + n ≤ maxDimensions := by
  have room : 0 < maxDimensions := by decide
  obtain ⟨c, d, flat, describable, rfl⟩ := normal_iff.1 normal
  rw [flat.arrayOf_arrayOf, flat.arrayOf_arrayOf, flat.dimensions_arrayOf,
    flat.element?_arrayOf (by omega) (by omega), Option.some_inj]
  constructor
  · intro same
    have counts := congrArg dimensions same
    rw [flat.dimensions_arrayOf, flat.dimensions_arrayOf] at counts
    omega
  · intro fits
    congr 1
    omega

end Ty

namespace Machine

def saturatingSum (a b : UInt8) : UInt8 :=
  if a.toBitVec.uaddOverflow b.toBitVec then 255 else a + b

def oneLess? (a : UInt8) : Option UInt8 := if a.toBitVec.usubOverflow 1 then none else some (a - 1)

/-- The array type with its count of dimensions computed in a byte. -/
def arrayOf (t : Ty) (n : UInt8) : Ty :=
  if n = 0 then t
  else match t with
    | .array inner count => .array inner (saturatingSum (.ofNat count) n).toNat
    | other => .array other n.toNat

/-- The element type of an array, `none` in its place if the count of dimensions drops below zero. -/
def element? : Ty → Option (Option Ty)
  | .array c count => some ((oneLess? (.ofNat count)).map (arrayOf c))
  | _ => none

variable {t : Ty}

theorem toNat_saturatingSum (a b : UInt8) :
    (saturatingSum a b).toNat = min Ty.maxDimensions (a.toNat + b.toNat) := by
  have greatest : Ty.maxDimensions = 255 := rfl
  unfold saturatingSum
  split
  · next beyond =>
    have large : 2 ^ 8 ≤ a.toNat + b.toNat := of_decide_eq_true beyond
    rw [Nat.min_eq_left (by omega)]
    rfl
  · next fits =>
    have small : a.toNat + b.toNat < 2 ^ 8 := Nat.not_le.1 fun large => fits (decide_eq_true large)
    rw [Nat.min_eq_right (by omega), UInt8.toNat_add, Nat.mod_eq_of_lt small]

theorem oneLess?_of_pos {a : UInt8} (positive : 1 ≤ a.toNat) : oneLess? a = some (a - 1) := by
  have fits : ¬ a.toBitVec.usubOverflow 1 := fun below =>
    absurd (of_decide_eq_true below : a.toNat < 1) (by omega)
  exact if_neg fits

theorem toNat_sub_one {a : UInt8} (positive : 1 ≤ a.toNat) : (a - 1).toNat = a.toNat - 1 :=
  UInt8.toNat_sub_of_le a 1 positive

theorem toNat_ofNat_count {d : Nat} (describable : d ≤ Ty.maxDimensions) :
    (UInt8.ofNat d).toNat = d :=
  UInt8.toNat_ofNat_of_lt (Nat.lt_succ_of_le describable)

theorem arrayOf_eq (normal : t.Normal) (n : UInt8) : arrayOf t n = t.arrayOf n.toNat := by
  have greatest : Ty.maxDimensions = 255 := rfl
  have byte := n.toNat_lt
  by_cases zero : n = 0
  · subst zero
    rfl
  · have some : n.toNat ≠ 0 := fun none => zero (UInt8.toNat_inj.1 none)
    rcases t.flat_or_array with flat | ⟨c, d, rfl⟩
    · rw [flat.arrayOf_eq some, Nat.min_eq_right (by omega)]
      unfold arrayOf
      rw [if_neg zero]
      split
      · next inner d => exact absurd rfl (flat inner d)
      · rfl
    · obtain ⟨_, _, describable⟩ := normal c d rfl
      rw [Ty.arrayOf_array c d some, ← toNat_ofNat_count describable, ← toNat_saturatingSum,
        toNat_ofNat_count describable]
      exact if_neg zero

theorem element?_eq (normal : t.Normal) : element? t = t.element?.map some := by
  rcases t.flat_or_array with flat | ⟨c, d, rfl⟩
  · rw [flat.element?]
    unfold element?
    split
    · next inner d => exact absurd rfl (flat inner d)
    · rfl
  · obtain ⟨flat, positive, describable⟩ := normal c d rfl
    have count := toNat_ofNat_count describable
    have positive : 1 ≤ (UInt8.ofNat d).toNat := count.symm ▸ positive
    calc some ((oneLess? (.ofNat d)).map (arrayOf c))
        = some (some (arrayOf c (.ofNat d - 1))) := by rw [oneLess?_of_pos positive, Option.map_some]
      _ = some (some (c.arrayOf (d - 1))) := by
        rw [arrayOf_eq flat.normal, toNat_sub_one positive, count]

end Machine

namespace Ty

/-- No array is one of arrays, and its count of dimensions is one that can be described. Arrays of arrays
merge, where counting stops at the greatest count; the element has one dimension fewer exactly while it
has not stopped. The same is computed in bytes, where no count drops below zero. -/
theorem arrays_normalise (t : Ty) (made : t.Made) :
    (∀ c d, t = array c d → (∀ inner k, c ≠ array inner k) ∧ 1 ≤ d ∧ d ≤ 255) ∧
    (∀ k n : UInt8, (t.arrayOf k.toNat).arrayOf n.toNat = t.arrayOf (min 255 (k.toNat + n.toNat))) ∧
    (∀ n : UInt8, (t.arrayOf n.toNat).dimensions = min 255 (t.dimensions + n.toNat) ∧
      (1 ≤ n.toNat → ((t.arrayOf n.toNat).element? = some (t.arrayOf (n.toNat - 1)) ↔
        t.dimensions + n.toNat ≤ 255)) ∧
      Machine.arrayOf t n = t.arrayOf n.toNat) ∧
    Machine.element? t = t.element?.map some :=
  have normal := made.normal
  ⟨normal, fun k n => normal.arrayOf_arrayOf k.toNat n.toNat,
    fun n => ⟨dimensions_arrayOf t n.toNat normal.dimensions_le, normal.element?_arrayOf_iff,
      Machine.arrayOf_eq normal n⟩,
    Machine.element?_eq normal⟩

/-- One dimension more than can be described: the array has as many as its element. -/
theorem arrays_normalise_greatest :
    let t := (primitive .int).arrayOf (200 : UInt8).toNat
    t.Made ∧ (t.arrayOf (56 : UInt8).toNat).dimensions = 255 ∧
      ¬ (t.arrayOf (56 : UInt8).toNat).element? = some (t.arrayOf 55) := by
  intro t
  have made : t.Made := .arrayOf 200 (.flat fun c d same => by contradiction)
  obtain ⟨counted, element, -⟩ := (arrays_normalise t made).2.2.1 56
  have dimensions : t.dimensions = 200 := rfl
  exact ⟨made, counted, fun same => absurd ((element (by decide)).1 same) (by decide)⟩

end Ty
end JavaSmith
