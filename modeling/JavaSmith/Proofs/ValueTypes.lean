import JavaSmith.Catalog
import JavaSmith.Proofs.Domains

/-! The types that values can have, and what a place that accepts a type may rely on. -/
namespace JavaSmith

namespace Kind

theorem isNumeric_of_isWideningOf {wide narrow : Kind} (h : wide.isWideningOf narrow = true) :
    narrow.isNumeric = wide.isNumeric := by
  revert h
  cases wide <;> cases narrow <;> decide

theorem eq_boolean_of_isWideningOf {narrow : Kind} (h : boolean.isWideningOf narrow = true) :
    narrow = boolean := by
  revert h
  cases narrow <;> decide

theorem bounds?_of_isWideningOf {wide narrow : Kind} {lo hi : Int}
    (h : wide.isWideningOf narrow = true) (bounds : wide.bounds? = some (lo, hi)) :
    ∃ lo' hi', narrow.bounds? = some (lo', hi') ∧ lo ≤ lo' ∧ hi' ≤ hi := by
  cases wide <;> cases narrow <;>
    first | contradiction | (cases bounds; exact ⟨_, _, rfl, by decide, by decide⟩)

end Kind

theorem Restriction.Valid.widened {r : Restriction} {k : Kind} (valid : r.Valid)
    (widens : k.isWideningOf r.base = true) (integral : k.isIntegral = true) :
    (⟨k, r.domain⟩ : Restriction).Valid := by
  obtain ⟨⟨lo, hi⟩, bounds⟩ := Option.isSome_iff_exists.1 integral
  obtain ⟨lo', hi', bounds', low, high⟩ := Kind.bounds?_of_isWideningOf widens bounds
  obtain ⟨lo'', hi'', bounds'', within⟩ := valid.bounded
  obtain ⟨rfl, rfl⟩ := Prod.mk.inj (Option.some.inj (bounds'.symm.trans bounds''))
  refine ⟨valid.ordered, valid.inhabited, lo, hi, bounds, fun n held => ?_⟩
  have := within n held
  omega

namespace Ty

def isPlain : Ty → Bool
  | primitive _ | string => true
  | _ => false

def hasLiteral : Ty → Bool
  | primitive _ | restricted _ | string => true
  | _ => false

/-- Types of variables and of values. A restriction fits its kind, an array has a describable number
of dimensions over something that is no array, and a class can be constructed from nothing, or else
from values that literals make. -/
def Valued : Ty → Prop
  | void => False
  | restricted r => r.Valid
  | named _ _ constructors =>
    [] ∈ constructors ∧ ∀ params ∈ constructors, ∀ t ∈ params, t.isPlain = true
  | array c n => 0 < n ∧ n ≤ maxDimensions ∧ c.dimensions = 0 ∧ c.Valued
  | _ => True

def WellFormed : Ty → Prop
  | void => False
  | restricted r => r.Valid
  | array c n => 0 < n ∧ n ≤ maxDimensions ∧ c.dimensions = 0 ∧ c.WellFormed
  | _ => True

theorem Valued.wellFormed : {t : Ty} → t.Valued → t.WellFormed
  | restricted _, valid => valid
  | array _ _, ⟨positive, describable, flat, valued⟩ => ⟨positive, describable, flat, valued.wellFormed⟩
  | primitive _, _ | object, _ | string, _ | date, _ | boxed _, _ | named _ _ _, _ => trivial

theorem Valued.isVoid {t : Ty} (valued : t.Valued) : t.isVoid = false := by
  cases t <;> first | rfl | exact valued.elim

theorem Valued.wanted {t : Ty} (valued : t.Valued) : ∀ u, some t = some u → u.Valued := by
  rintro _ ⟨⟩
  exact valued

theorem valued_of_isPlain {t : Ty} (plain : t.isPlain = true) : t.Valued := by
  cases t <;> trivial

theorem kind_of_accepts {t u : Ty} {k : Kind} (h : t.accepts u = true) (kind : t.kind? = some k) :
    ∃ k', u.kind? = some k' ∧ k.isWideningOf k' = true := by
  cases t with
  | primitive k₀ =>
    cases kind
    cases u with
    | primitive k' => exact ⟨k', rfl, by simpa [accepts] using h⟩
    | restricted r =>
      simp only [accepts, Bool.and_eq_true] at h
      exact ⟨r.base, rfl, h.1⟩
    | _ => simp [accepts, isReference] at h
  | restricted r =>
    cases kind
    cases u with
    | restricted r' =>
      simp only [accepts, Bool.and_eq_true] at h
      exact ⟨r'.base, rfl, h.1⟩
    | _ => simp [accepts, isReference] at h
  | _ => contradiction

theorem restricted_accepts {r : Restriction} {u : Ty} (h : (restricted r).accepts u = true) :
    ∃ r', u = restricted r' ∧ r.base.isWideningOf r'.base = true ∧
      r.domain.contains r'.domain = true := by
  cases u with
  | restricted r' =>
    simp only [accepts, Bool.and_eq_true] at h
    exact ⟨r', rfl, h.1, h.2⟩
  | _ => simp [accepts, isReference] at h

theorem string_accepts {u : Ty} (h : string.accepts u = true) : u = string := by
  cases u <;> simp [accepts, isReference, BEq.beq, same] at h ⊢

theorem isNumeric_of_kind {t : Ty} {k : Kind} (kind : t.kind? = some k) :
    t.isNumeric = k.isNumeric := by
  unfold isNumeric
  rw [kind]
  rfl

theorem boolean_accepts {u : Ty} (h : (primitive .boolean).accepts u = true) :
    u.kind? = some .boolean := by
  obtain ⟨k, kind, widens⟩ := kind_of_accepts h rfl
  rw [kind, Kind.eq_boolean_of_isWideningOf widens]

theorem isNumeric_of_accepts {t u : Ty} (h : t.accepts u = true) (numeric : t.isNumeric = true) :
    u.isNumeric = true := by
  obtain ⟨k, kind, numericKind⟩ := (Option.any_eq_true _ _).1 numeric
  obtain ⟨k', kind', widens⟩ := kind_of_accepts h kind
  rw [isNumeric_of_kind kind', Kind.isNumeric_of_isWideningOf widens, numericKind]

theorem excludesZero_of_accepts {t u : Ty} (h : t.accepts u = true)
    (excludes : t.excludesZero = true) : u.excludesZero = true := by
  cases t with
  | restricted r =>
    obtain ⟨r', rfl, _, within⟩ := restricted_accepts h
    exact Domain.excludesZero_of_contains within excludes
  | _ => contradiction

theorem acceptsComponent_of_kind?_eq_none {t : Ty} (none : t.kind? = none) (itself : Bool) (u : Ty) :
    acceptsComponent itself t u = itself := by
  cases t with
  | primitive | restricted => contradiction
  | _ => simp only [acceptsComponent]

theorem acceptsComponent_of_kind?_eq_some {t : Ty} {k : Kind} (kind : t.kind? = some k)
    (itself : Bool) (u : Ty) : acceptsComponent itself t u = (u.kind? == some k) := by
  cases t with
  | primitive | restricted =>
    cases kind
    simp only [acceptsComponent]
  | _ => contradiction

/-- Neither `void` nor an array of it. -/
def isVoidFree : Ty → Bool
  | void => false
  | array c _ => c.isVoidFree
  | _ => true

theorem WellFormed.isVoidFree : {t : Ty} → t.WellFormed → t.isVoidFree = true
  | array _ _, ⟨_, _, _, wellFormed⟩ => wellFormed.isVoidFree
  | primitive _, _ | restricted _, _ | object, _ | string, _ | date, _ | boxed _, _
  | named _ _ _, _ => rfl

/-- Only `void` and arrays of it do not accept themselves. -/
theorem accepts_self : (t : Ty) → t.accepts t = t.isVoidFree
  | void => void_accepts void
  | primitive k => by simpa only [accepts, isVoidFree] using k.isWideningOf_refl
  | restricted r => by
    simp only [accepts, isVoidFree, r.base.isWideningOf_refl, r.domain.contains_refl, Bool.true_and]
  | array c n => by
    have component : acceptsComponent (c.accepts c) c c = c.isVoidFree := by
      cases kind : c.kind? with
      | none => rw [acceptsComponent_of_kind?_eq_none kind, accepts_self c]
      | some k =>
        rw [acceptsComponent_of_kind?_eq_some kind, kind, beq_self_eq_true]
        cases c <;> first | rfl | contradiction
    simp only [accepts, beq_self_eq_true, Bool.true_and]
    exact component
  | object | string | date | boxed _ | named _ _ _ => by
    simp [accepts, isReference, isNullable, BEq.beq, same, isVoidFree]

theorem WellFormed.accepts_self {t : Ty} (wellFormed : t.WellFormed) : t.accepts t = true :=
  t.accepts_self.trans wellFormed.isVoidFree

theorem accepts_refl {t : Ty} (valued : t.Valued) : t.accepts t = true :=
  valued.wellFormed.accepts_self

theorem object_accepts (t : Ty) : object.accepts t = t.isNullable := by
  cases t <;> simp [accepts, isNullable, isReference]

theorem isNullable_of_accepts {t u : Ty} (h : t.accepts u = true) (nullable : t.isNullable = true) :
    u.isNullable = true := by
  cases t <;> cases u <;> simp_all [accepts, isNullable, isReference, BEq.beq, same]

theorem kind?_eq_none_of_accepts {t u : Ty} (h : t.accepts u = true) (none : t.kind? = none) :
    u.kind? = Option.none := by
  cases t with
  | primitive | restricted => contradiction
  | void => simp [void_accepts] at h
  | _ =>
    have := isNullable_of_accepts h rfl
    cases u <;> first | rfl | contradiction

theorem primitive_accepts_restricted {k : Kind} {r : Restriction} :
    (primitive k).accepts (restricted r) = true ↔ k.isWideningOf r.base = true ∧
      ∀ lo hi, k.bounds? = some (lo, hi) → (Domain.range lo hi).contains r.domain = true := by
  simp only [accepts, Bool.and_eq_true]
  refine and_congr_right fun _ => ?_
  cases k.bounds? with
  | none => simp
  | some ends =>
    obtain ⟨lo, hi⟩ := ends
    simp

theorem primitive_accepts_trans {k : Kind} {u v : Ty} (h : (primitive k).accepts u = true)
    (h' : u.accepts v = true) : (primitive k).accepts v = true := by
  obtain ⟨k', kind, widens⟩ := kind_of_accepts h rfl
  obtain ⟨k'', kind', widens'⟩ := kind_of_accepts h' kind
  cases u with
  | primitive =>
    cases kind
    cases v with
    | primitive =>
      cases kind'
      simpa only [accepts] using Kind.isWideningOf_trans widens widens'
    | restricted r =>
      cases kind'
      obtain ⟨_, bounded⟩ := primitive_accepts_restricted.1 h'
      refine primitive_accepts_restricted.2
        ⟨Kind.isWideningOf_trans widens widens', fun lo hi bounds => ?_⟩
      obtain ⟨lo', hi', bounds', low, high⟩ := Kind.bounds?_of_isWideningOf widens bounds
      refine Domain.contains_trans (Domain.contains_of_forall fun n held => ?_)
        (bounded lo' hi' bounds')
      have := Domain.holds_range.1 held
      exact Domain.holds_range.2 ⟨by omega, by omega⟩
    | _ => contradiction
  | restricted r =>
    obtain ⟨r', rfl, widens', within⟩ := restricted_accepts h'
    obtain ⟨widens, bounded⟩ := primitive_accepts_restricted.1 h
    exact primitive_accepts_restricted.2 ⟨Kind.isWideningOf_trans widens widens',
      fun lo hi bounds => Domain.contains_trans (bounded lo hi bounds) within⟩
  | _ => contradiction

theorem accepts_trans {t u v : Ty} (h : t.accepts u = true) (h' : u.accepts v = true) :
    t.accepts v = true := by
  cases t with
  | void => simp [void_accepts] at h
  | primitive k => exact primitive_accepts_trans h h'
  | restricted r =>
    obtain ⟨r', rfl, widens, within⟩ := restricted_accepts h
    obtain ⟨r'', rfl, widens', within'⟩ := restricted_accepts h'
    simp only [accepts, Bool.and_eq_true]
    exact ⟨Kind.isWideningOf_trans widens widens', Domain.contains_trans within within'⟩
  | object =>
    rw [object_accepts] at h ⊢
    exact isNullable_of_accepts h' h
  | array c n =>
    cases u with
    | array c' n' =>
      simp only [accepts, Bool.and_eq_true, beq_iff_eq] at h
      obtain ⟨rfl, component⟩ := h
      cases v with
      | array c'' n'' =>
        simp only [accepts, Bool.and_eq_true] at h' ⊢
        refine ⟨h'.1, ?_⟩
        cases kind : c.kind? with
        | none =>
          rw [acceptsComponent_of_kind?_eq_none kind] at component ⊢
          rw [acceptsComponent_of_kind?_eq_none (kind?_eq_none_of_accepts component kind)] at h'
          exact accepts_trans component h'.2
        | some k =>
          rw [acceptsComponent_of_kind?_eq_some kind, beq_iff_eq] at component ⊢
          rw [acceptsComponent_of_kind?_eq_some component, beq_iff_eq] at h'
          exact beq_iff_eq.1 h'.2
      | _ => simp [accepts, isReference] at h'
    | _ => simp [accepts, isReference] at h
  | string | date | boxed | named =>
    cases u with
    | string | date | boxed | named =>
      cases v <;> simp_all [accepts, isReference, BEq.beq, same]
    | _ => simp [accepts, isReference, BEq.beq, same] at h

theorem valued_arraySize {maxSize : Nat} (h : maxSize ≤ 2147483647) : (arraySize maxSize).Valued where
  ordered := trivial
  inhabited := ⟨0, Domain.holds_range.2 ⟨Int.le_refl _, by omega⟩⟩
  bounded := by
    refine ⟨_, _, rfl, fun n held => ?_⟩
    have := Domain.holds_range.1 held
    omega

theorem valued_loopBound {maxIterations : Nat} (h : maxIterations ≤ 2147483647) :
    (loopBound maxIterations).Valued where
  ordered := trivial
  inhabited := ⟨1, Domain.holds_range.2 ⟨Int.le_refl _, by omega⟩⟩
  bounded := by
    refine ⟨_, _, rfl, fun n held => ?_⟩
    have := Domain.holds_range.1 held
    omega

theorem valued_nonzeroInt : nonzeroInt.Valued where
  ordered := Domain.ordered_ofList _
  inhabited := ⟨2, by decide⟩
  bounded := by
    refine ⟨_, _, rfl, fun n held => ?_⟩
    have member := (Domain.holds_ofList _ n).1 held
    simp only [List.mem_cons, List.not_mem_nil, or_false] at member
    omega

theorem valued_arrayOf {t : Ty} {n : Nat} (valued : t.Valued) (flat : t.dimensions = 0) :
    (t.arrayOf n).Valued := by
  unfold arrayOf
  split
  · exact valued
  · next positive =>
    split
    · next inner m =>
      have : 0 < m := valued.1
      exact absurd flat (by simp only [dimensions]; omega)
    · refine ⟨?_, Nat.min_le_left .., flat, valued⟩
      unfold maxDimensions
      omega

end Ty
end JavaSmith
