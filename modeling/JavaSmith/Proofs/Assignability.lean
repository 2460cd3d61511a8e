import JavaSmith.Proofs.DomainSets
import JavaSmith.Proofs.Generators.Operations

/-! Which types accept which. On the types that values can be given acceptance is a preorder, and `void`
stands outside it. Where an integral type accepts another, every number of the second is one of the
first: no value is lost on the way, and neither is the domain when an operand is cast to the kind of
an operator. -/
namespace JavaSmith

namespace Ty

/-- Types that can be made: those of the primitive kinds, integers restricted to a domain that fits their
kind, classes, and arrays of all these. -/
inductive Formed : Ty → Prop where
  | primitive (k : Kind) : Formed (.primitive k)
  | restricted {base : Kind} {o : Outline} {t : Ty} : restrictedTo? base o.domain = some t → Formed t
  | object : Formed .object
  | string : Formed .string
  | date : Formed .date
  | boxed (k : Kind) : Formed (.boxed k)
  | named (descriptor : String) (isFinal : Bool) (constructors : List (List Ty)) :
    Formed (.named descriptor isFinal constructors)
  | arrayOf {t : Ty} (n : Nat) : Formed t → Formed (t.arrayOf n)

theorem wellFormed_arrayOf {t : Ty} (n : Nat) (wellFormed : t.WellFormed) :
    (t.arrayOf n).WellFormed := by
  have room : 0 < maxDimensions := by decide
  unfold arrayOf
  split
  · exact wellFormed
  · next positive =>
    cases t with
    | array inner m =>
      obtain ⟨_, _, flat, component⟩ := wellFormed
      exact ⟨by omega, Nat.min_le_left .., flat, component⟩
    | _ => exact ⟨by omega, Nat.min_le_left .., rfl, wellFormed⟩

theorem Formed.wellFormed {t : Ty} (formed : t.Formed) : t.WellFormed := by
  induction formed with
  | @restricted base o t made =>
    obtain ⟨r, of, rfl⟩ := Option.map_eq_some_iff.1 made
    exact ((Restriction.of?_eq_some_iff o.ordered_domain).1 of).2
  | arrayOf n _ ih => exact wellFormed_arrayOf n ih
  | _ => trivial

/-- Acceptance is a preorder: a type accepts itself, and what is accepted by what it accepts. Nothing is
accepted by `void`, nor `void` by anything. -/
theorem accepts_preorder :
    (∀ t : Ty, t.Formed → t.accepts t = true) ∧
    (∀ t u v : Ty, t.accepts u = true → u.accepts v = true → t.accepts v = true) ∧
    ∀ t : Ty, void.accepts t = false ∧ t.accepts void = false :=
  ⟨fun _ formed => formed.wellFormed.accepts_self,
    fun _ _ _ => accepts_trans, fun t => ⟨void_accepts t, accepts_void t⟩⟩

/-- The numbers from 2 to 4 as bytes, among the four first positive ones. -/
theorem long_accepts_twoToFour :
    let few := restricted ⟨.int, .ofList [4, 1, 3, 2, 1]⟩
    let twoToFour := restricted ⟨.byte, .range 2 4⟩
    few.accepts twoToFour = true ∧ (primitive .long).accepts twoToFour = true ∧
      (few.arrayOf 2).accepts (few.arrayOf 2) = true := by
  intro few twoToFour
  have made : restrictedTo? .int (Outline.listed [4, 1, 3, 2, 1]).domain = some few := rfl
  have inside : few.accepts twoToFour = true := by
    simp only [few, twoToFour, accepts]
    decide
  have outside : (primitive .long).accepts few = true := by
    simp only [few, accepts]
    decide
  exact ⟨inside, accepts_preorder.2.1 _ few _ outside inside,
    accepts_preorder.1 _ (.arrayOf 2 (.restricted made))⟩

end Ty

/-- The restrictions there are: those of a domain that fits its kind, and those of the sizes of arrays and
of the bounds of loops under any 32-bit limit. -/
inductive Restriction.Made : Restriction → Prop where
  | of {base : Kind} {o : Outline} {r : Restriction} : Restriction.of? base o.domain = some r → Made r
  | arraySize (limit : UInt32) : Made ⟨.int, .range 0 limit.toNat⟩
  | loopBound (limit : UInt32) : Made ⟨.int, .range 1 (max limit.toNat 1 : Nat)⟩

namespace Restriction

theorem valid_long {lo hi : Int} (ordered : lo ≤ hi) (positive : 0 ≤ lo) (below : hi < 4294967296) :
    (⟨.long, .range lo hi⟩ : Restriction).Valid where
  ordered := trivial
  inhabited := ⟨lo, Domain.holds_range.2 ⟨Int.le_refl _, ordered⟩⟩
  bounded := by
    refine ⟨_, _, rfl, fun n held => ?_⟩
    have := Domain.holds_range.1 held
    omega

theorem Made.widened {r : Restriction} {k : Kind} (made : r.Made) (widens : k.isWideningOf r.base = true)
    (integral : k.isIntegral = true) (differs : k ≠ r.base) :
    (⟨k, r.domain⟩ : Restriction).Valid := by
  -- A limit of 32 bits may be above the greatest `int`, but only `long` is wider and integral.
  have long (wider : k.isWideningOf .int = true) (other : k ≠ .int) : k = .long := by
    revert wider other integral
    cases k <;> decide
  cases made with
  | of of =>
    exact (of?_eq_some_iff (Outline.ordered_domain _)).1 of |>.2.widened widens integral
  | arraySize limit =>
    obtain rfl := long widens differs
    have := limit.toNat_lt
    exact valid_long (by omega) (by omega) (by omega)
  | loopBound limit =>
    obtain rfl := long widens differs
    have := limit.toNat_lt
    exact valid_long (by omega) (by omega) (by omega)

end Restriction

theorem Value.exists_widened {t u : Ty} {k : Kind} {v : Value} {n : Int} (h : t.accepts u = true)
    (kind : t.kind? = some k) (integral : k.isIntegral = true) (fits : v.fits u = true)
    (number : v.toInt? = some n) :
    ∃ w, integer? k n = some w ∧ w.fits t = true ∧ w.toInt? = some n := by
  obtain ⟨k', kind', widens⟩ := Ty.kind_of_accepts h kind
  obtain ⟨⟨lo, hi⟩, bounds⟩ := Option.isSome_iff_exists.1 integral
  obtain ⟨lo', hi', bounds', low, high⟩ := Kind.bounds?_of_isWideningOf widens bounds
  obtain ⟨lo'', hi'', bounds'', within⟩ := exists_bounds (kind?_of_fits fits kind') number
  obtain ⟨rfl, rfl⟩ := Prod.mk.inj (Option.some.inj (bounds'.symm.trans bounds''))
  obtain ⟨w, made, kindW, numberW⟩ := integer?_of_bounds bounds (n := n) (by omega) (by omega)
  refine ⟨w, made, ?_, numberW⟩
  cases t with
  | primitive =>
    cases kind
    exact fits_primitive kindW
  | restricted r =>
    cases kind
    obtain ⟨r', rfl, _, contains⟩ := Ty.restricted_accepts h
    obtain ⟨m, _, same, held⟩ := exists_of_fits_restricted fits
    obtain rfl : n = m := Option.some.inj (number.symm.trans same)
    exact fits_restricted kindW numberW (Domain.holds_of_contains contains held)
  | _ => contradiction

namespace Generator

open Program in
/-- No integer is lost where one type accepts another: a value of the accepted type has a value of the
kind that accepts it, with the same number, that fits the accepting type; and a type without zero
accepts only types without it. An operand of a restricted type is cast to a wider kind without losing its
domain: the node has exactly that kind, and is the operand itself if the operand has the kind. -/
theorem accepted_integers_kept :
    (∀ (t u : Ty) (k : Kind), t.accepts u = true → t.kind? = some k → k.isIntegral = true →
      (∀ (v : Value) (n : Int), v.fits u = true → v.toInt? = some n →
        ∃ w, Value.integer? k n = some w ∧ w.fits t = true ∧ w.toInt? = some n) ∧
      (t.excludesZero = true → u.excludesZero = true)) ∧
    ∀ (p : Program) (e : ExprId) (r : Restriction) (k : Kind) (stream : Random.Stream),
      p.typeOf e = .restricted r → r.Made → k.isIntegral = true → k.isWideningOf r.base = true →
      ∃ e' p', coerce e k ⟨p, stream⟩ = .ok e' ⟨p', stream⟩ ∧
        p'.typeOf e' = .restricted ⟨k, r.domain⟩ ∧
        (e', p') = if k = r.base then (e, p) else p.addCast (.restricted ⟨k, r.domain⟩) e := by
  refine ⟨fun t u k h kind integral => ⟨fun v n => Value.exists_widened h kind integral,
    Ty.excludesZero_of_accepts h⟩, fun p e r k stream type made integral widens => ?_⟩
  refine ⟨_, _, coerce_eq p e k stream, ?_⟩
  unfold coerced
  rw [type]
  by_cases same : k = r.base
  · subst same
    simpa [Ty.kind?] using type
  · have valid := made.widened widens integral same
    have target : coercedType (.restricted r) k = .restricted ⟨k, r.domain⟩ :=
      coercedType_of_valid valid
    have differs : ¬((Ty.restricted r).kind? == some k) = true := by
      simpa [Ty.kind?] using Ne.symm same
    rw [if_neg differs, if_neg same, target]
    exact ⟨typeOf_add .., rfl⟩

/-- A digit among the numbers up to a hundred, and as an operand in the kind `int`. -/
theorem digit_kept :
    let digit : Restriction := ⟨.char, .range 48 57⟩
    let hundred : Ty := .restricted ⟨.int, .range 1 100⟩
    let p := ((Program.new "T" 0 .default).addConstant (.char 53) (.restricted digit)).2
    (∃ w, Value.integer? .int 53 = some w ∧ w.fits hundred = true ∧ w.toInt? = some 53) ∧
    ∃ e' p', coerce 0 .int ⟨p, Random.Stream.ofSeed 0⟩ = .ok e' ⟨p', Random.Stream.ofSeed 0⟩ ∧
      p'.typeOf e' = .restricted ⟨.int, .range 48 57⟩ := by
  intro digit hundred p
  have accepted : hundred.accepts (.restricted digit) = true := by
    simp only [digit, hundred, Ty.accepts]
    decide
  have made : Restriction.of? .char (Outline.between 48 57).domain = some digit := rfl
  obtain ⟨kept, _⟩ := accepted_integers_kept.1 hundred (.restricted digit) .int accepted rfl rfl
  obtain ⟨e', p', done, type, _⟩ := accepted_integers_kept.2 p 0 digit .int (Random.Stream.ofSeed 0)
    rfl (.of made) rfl rfl
  exact ⟨kept (.char 53) 53 rfl rfl, e', p', done, type⟩

end Generator
end JavaSmith
