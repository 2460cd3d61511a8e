import JavaSmith.Proofs.DomainSets
import JavaSmith.Proofs.Generators.Arguments

/-! Integers drawn from a domain. Something is drawn exactly if there is something in the domain, and it is a
member, whatever the stream. From an interval of 64-bit numbers the machine draws the same number with words
alone: steps inward from the ends stop at the greatest and the least word, no other sum or difference
overflows, and neither an empty range nor an empty list is ever drawn from. -/
namespace JavaSmith

open JavaSmith.Random

namespace Random

theorem reservoir_map {α β : Type} (f : α → β) (xs : List α) (met : Nat) (kept : Option α) (s : Stream) :
    reservoir met (kept.map f) (xs.map f) s =
      ((reservoir met kept xs s).1.map f, (reservoir met kept xs s).2) := by
  induction xs generalizing met kept s with
  | nil => rfl
  | cons x rest ih =>
    simp only [List.map_cons, reservoir, bind, StateT.bind]
    generalize index (met + 1) s = drawn
    obtain ⟨i, s⟩ := drawn
    dsimp only
    rw [← ih]
    split <;> rfl

theorem chooseOneByOne_map {α β : Type} (f : α → β) (xs : List α) (s : Stream) :
    chooseOneByOne (xs.map f) s =
      ((chooseOneByOne xs s).1.map f, (chooseOneByOne xs s).2) :=
  reservoir_map f xs 0 none s

end Random

namespace Machine

open Int64 (lt_iff_toInt_lt le_iff_toInt_le)

/-- The sum, unless it overflows. -/
def sum? (a b : Int64) : Option Int64 :=
  if a.toBitVec.saddOverflow b.toBitVec then none else some (a + b)

def difference? (a b : Int64) : Option Int64 :=
  if a.toBitVec.ssubOverflow b.toBitVec then none else some (a - b)

/-- The next number, or the same if it is the greatest. -/
def stepUp (n : Int64) : Int64 := (sum? n 1).getD Int64.maxValue

def stepDown (n : Int64) : Int64 := (difference? n 1).getD Int64.minValue

def boundaries (lo hi : Int64) : List Int64 :=
  [lo, hi, 0, 1, -1, stepUp lo, stepDown hi].filter fun n => lo ≤ n && n ≤ hi

/-- A number from `lo` to `hi`; `none` if there is none, or if a sum or difference on the way
overflows. -/
def between (lo hi : Int64) : Draw (Option Int64) :=
  if hi < lo then return none
  else
    match (difference? hi lo).bind (sum? · 1) with
    | none => return none
    | some size => do
      let distance ← offset size.toInt.toNat
      return sum? lo (Int64.ofNat distance)

/-- Half of the time a boundary, `none` if there is none; otherwise a small number, or any number if
none is small, as `between` draws it. -/
def integerIn (lo hi : Int64) : Draw (Option Int64) := do
  if ← coin then chooseOneByOne (boundaries lo hi)
  else
    let smallLo := max lo (-128)
    let smallHi := min hi 127
    if smallLo ≤ smallHi then between smallLo smallHi else between lo hi

variable {a b n lo hi : Int64}

theorem toInt_max (a b : Int64) : (max a b).toInt = max a.toInt b.toInt := by
  change (if a ≤ b then b else a).toInt = _
  by_cases ordered : a ≤ b
  · rw [if_pos ordered, max_eq_right (le_iff_toInt_le.1 ordered)]
  · have := mt le_iff_toInt_le.2 ordered
    rw [if_neg ordered, max_eq_left (by omega)]

theorem toInt_min (a b : Int64) : (min a b).toInt = min a.toInt b.toInt := by
  change (if a ≤ b then a else b).toInt = _
  by_cases ordered : a ≤ b
  · rw [if_pos ordered, min_eq_left (le_iff_toInt_le.1 ordered)]
  · have := mt le_iff_toInt_le.2 ordered
    rw [if_neg ordered, min_eq_right (by omega)]

theorem sum?_spec (a b : Int64) :
    (∃ c, sum? a b = some c ∧ c.toInt = a.toInt + b.toInt) ∨
    sum? a b = none ∧ (a.toInt + b.toInt < minLong ∨ maxLong < a.toInt + b.toInt) := by
  unfold sum?
  split
  · next beyond =>
    refine .inr ⟨rfl, ?_⟩
    simp only [BitVec.saddOverflow, Bool.or_eq_true, decide_eq_true_eq] at beyond
    change _ ∨ a.toInt + b.toInt < _ at beyond
    change a.toInt + b.toInt ≥ _ ∨ _ at beyond
    unfold minLong maxLong
    omega
  · next fits => exact .inl ⟨_, rfl, BitVec.toInt_add_of_not_saddOverflow fits⟩

theorem difference?_spec (a b : Int64) :
    (∃ c, difference? a b = some c ∧ c.toInt = a.toInt - b.toInt) ∨
    difference? a b = none ∧ (a.toInt - b.toInt < minLong ∨ maxLong < a.toInt - b.toInt) := by
  unfold difference?
  split
  · next beyond =>
    refine .inr ⟨rfl, ?_⟩
    simp only [BitVec.ssubOverflow, Bool.or_eq_true, decide_eq_true_eq] at beyond
    change _ ∨ a.toInt - b.toInt < _ at beyond
    change a.toInt - b.toInt ≥ _ ∨ _ at beyond
    unfold minLong maxLong
    omega
  · next fits => exact .inl ⟨_, rfl, BitVec.toInt_sub_of_not_ssubOverflow fits⟩

theorem toInt_stepUp (n : Int64) : (stepUp n).toInt = min (n.toInt + 1) maxLong := by
  have one : (1 : Int64).toInt = 1 := rfl
  have low := n.le_toInt
  have high := n.toInt_lt
  unfold stepUp maxLong
  rcases sum?_spec n 1 with ⟨c, added, value⟩ | ⟨beyond, outside⟩
  · have := c.toInt_lt
    rw [added, Option.getD_some]
    omega
  · have greatest : Int64.maxValue.toInt = 9223372036854775807 := rfl
    unfold minLong maxLong at outside
    rw [beyond, Option.getD_none]
    omega

theorem toInt_stepDown (n : Int64) : (stepDown n).toInt = max (n.toInt - 1) minLong := by
  have one : (1 : Int64).toInt = 1 := rfl
  have low := n.le_toInt
  have high := n.toInt_lt
  unfold stepDown minLong
  rcases difference?_spec n 1 with ⟨c, subtracted, value⟩ | ⟨beyond, outside⟩
  · have := c.le_toInt
    rw [subtracted, Option.getD_some]
    omega
  · have least : Int64.minValue.toInt = -9223372036854775808 := rfl
    unfold minLong maxLong at outside
    rw [beyond, Option.getD_none]
    omega

theorem map_boundaries (lo hi : Int64) :
    (boundaries lo hi).map Int64.toInt = Random.boundaries lo.toInt hi.toInt := by
  have inside (n : Int64) :
      (decide (lo ≤ n) && decide (n ≤ hi)) =
        (decide (lo.toInt ≤ n.toInt) && decide (n.toInt ≤ hi.toInt)) := by
    simp only [le_iff_toInt_le]
  have words : [lo.toInt, hi.toInt, 0, 1, -1, (stepUp lo).toInt, (stepDown hi).toInt] =
      [lo, hi, 0, 1, -1, stepUp lo, stepDown hi].map Int64.toInt := rfl
  unfold boundaries Random.boundaries
  simp only [inside]
  rw [← toInt_stepUp, ← toInt_stepDown, words, List.filter_map]
  rfl

theorem boundaries_ne_nil (h : lo ≤ hi) : boundaries lo hi ≠ [] :=
  List.ne_nil_of_mem (List.mem_filter.2 ⟨List.mem_cons_self, by simpa using h⟩)

theorem between_eq (h : lo ≤ hi) (short : hi.toInt - lo.toInt < maxLong) (s : Stream) :
    ∃ n, between lo hi s = (some n, (integerBetween lo.toInt hi.toInt s).2) ∧
      n.toInt = (integerBetween lo.toInt hi.toInt s).1 := by
  have ordered := le_iff_toInt_le.1 h
  have low := lo.le_toInt
  have high := hi.toInt_lt
  have one : (1 : Int64).toInt = 1 := rfl
  unfold maxLong at short
  have width : ∃ size, (difference? hi lo).bind (sum? · 1) = some size ∧
      size.toInt = hi.toInt - lo.toInt + 1 := by
    rcases difference?_spec hi lo with ⟨d, subtracted, difference⟩ | ⟨_, outside⟩
    · rcases sum?_spec d 1 with ⟨size, added, sum⟩ | ⟨_, outside⟩
      · exact ⟨size, by rw [subtracted, Option.bind_some, added], by omega⟩
      · unfold minLong maxLong at outside
        omega
    · unfold minLong maxLong at outside
      omega
  obtain ⟨size, computed, value⟩ := width
  have below := @offset_lt (hi.toInt - lo.toInt + 1).toNat (by omega) s
  have distance : (Int64.ofNat (offset (hi.toInt - lo.toInt + 1).toNat s).1).toInt =
      (offset (hi.toInt - lo.toInt + 1).toNat s).1 := Int64.toInt_ofNat_of_lt (by omega)
  rcases sum?_spec lo (.ofNat (offset (hi.toInt - lo.toInt + 1).toNat s).1) with
    ⟨n, added, sum⟩ | ⟨_, outside⟩
  · refine ⟨n, ?_, ?_⟩
    · have nonempty : ¬hi < lo := mt lt_iff_toInt_lt.1 (by omega)
      unfold between
      rw [if_neg nonempty, computed]
      dsimp only
      rw [value]
      exact congrArg (·, (offset (hi.toInt - lo.toInt + 1).toNat s).2) added
    · rw [sum, distance]
      rfl
  · unfold minLong maxLong at outside
    omega

/-- On an interval that is not empty the machine draws with words alone, and no step fails. -/
theorem integerIn_eq (h : lo ≤ hi) (s : Stream) :
    ∃ n, integerIn lo hi s = (some n, (Random.integerIn lo.toInt hi.toInt s).2) ∧
      n.toInt = (Random.integerIn lo.toInt hi.toInt s).1 := by
  have ordered := le_iff_toInt_le.1 h
  simp only [integerIn, Random.integerIn, bind, StateT.bind]
  generalize coin s = flip
  obtain ⟨heads, s⟩ := flip
  cases heads
  · simp only [Bool.false_eq_true, if_false]
    have smallLo : (max lo (-128)).toInt = max lo.toInt (-128) := toInt_max lo (-128)
    have smallHi : (min hi 127).toInt = min hi.toInt 127 := toInt_min hi 127
    by_cases small : max lo (-128) ≤ min hi 127
    · have numbers := le_iff_toInt_le.1 small
      rw [smallLo, smallHi] at numbers
      obtain ⟨n, drawn, value⟩ := between_eq small (by unfold maxLong; omega) s
      rw [smallLo, smallHi] at drawn value
      rw [if_pos small, if_pos numbers]
      exact ⟨n, drawn, value⟩
    · have numbers : ¬max lo.toInt (-128) ≤ min hi.toInt 127 := by
        rwa [← smallLo, ← smallHi, ← le_iff_toInt_le]
      -- the interval lies on one side of the small numbers, so it has fewer than half of all words
      have low := lo.le_toInt
      have high := hi.toInt_lt
      rw [if_neg small, if_neg numbers]
      exact between_eq h (by unfold maxLong; omega) s
  · simp only [if_true]
    have same := chooseOneByOne_map Int64.toInt (boundaries lo hi) s
    rw [map_boundaries] at same
    unfold StateT.bind
    rw [same]
    cases chosen : (chooseOneByOne (boundaries lo hi) s).1 with
    | none => exact absurd ((always_chooseOneByOne _ s).2 chosen) (boundaries_ne_nil h)
    | some n =>
      exact ⟨n, Prod.ext chosen rfl, rfl⟩

end Machine

namespace Random

theorem inDomain_spec (d : Domain) (s : Stream) :
    ((inDomain d s).1 = none ↔ d.isEmpty = true) ∧
    ∀ n, (inDomain d s).1 = some n → d.holds n = true := by
  cases empty : d.isEmpty with
  | true =>
    have none : (inDomain d s).1 = none := by
      cases d with
      | set members =>
        obtain rfl : members = [] := by simpa [Domain.isEmpty, Domain.min?] using empty
        rfl
      | range lo hi =>
        have reversed : ¬lo ≤ hi := by simpa [Domain.isEmpty, Domain.min?] using empty
        unfold inDomain
        dsimp only
        rw [if_neg reversed]
        rfl
    exact ⟨iff_of_true none rfl, fun n drawn => by rw [none] at drawn; contradiction⟩
  | false =>
    obtain ⟨n, drawn, held⟩ := always_inDomain empty s
    refine ⟨iff_of_false ?_ Bool.false_ne_true, fun k drawn' => ?_⟩
    · rw [drawn]
      exact Option.some_ne_none n
    · rw [drawn] at drawn'
      exact Option.some.inj drawn' ▸ held

end Random

namespace Builder

theorem build_literal {r : Restriction} (valid : r.Valid) (p : Program) (stream : Stream) :
    ∃ n v, (inDomain r.domain stream).1 = some n ∧ r.domain.holds n = true ∧
      v.kind? = some r.base ∧ v.toInt? = some n ∧ v.fits (.restricted r) = true ∧
      (literal (.restricted r)).build [] ⟨p, stream⟩ =
        .ok (p.addConstant v (.restricted r)).1
          ⟨(p.addConstant v (.restricted r)).2, (inDomain r.domain stream).2⟩ := by
  obtain ⟨n, drawn, held⟩ := always_inDomain valid.isEmpty_eq_false stream
  obtain ⟨lo, hi, bounds, within⟩ := valid.bounded
  obtain ⟨v, made, kind, number⟩ :=
    Value.integer?_of_bounds bounds (within n held).1 (within n held).2
  have fits := Value.fits_restricted kind number held
  have value : randomLiteral (.restricted r) ⟨p, stream⟩ =
      .ok v ⟨p, (inDomain r.domain stream).2⟩ := by
    have given : Gen.draw (inDomain r.domain) ⟨p, stream⟩ =
        .ok (some n) ⟨p, (inDomain r.domain stream).2⟩ :=
      congrArg (EStateM.Result.ok · (⟨p, (inDomain r.domain stream).2⟩ : Draft)) drawn
    unfold randomLiteral
    change EStateM.bind (Gen.draw (inDomain r.domain)) _ ⟨p, stream⟩ = _
    rw [EStateM.bind, given]
    dsimp only
    rw [Option.bind_some, made]
    rfl
  have constant : Gen.constant v (.restricted r) ⟨p, (inDomain r.domain stream).2⟩ =
      .ok (p.addConstant v (.restricted r)).1
        ⟨(p.addConstant v (.restricted r)).2, (inDomain r.domain stream).2⟩ := by
    have taken : Program.constantRefusal? v (.restricted r) = none := if_pos fits
    unfold Gen.constant Gen.stepUnless
    rw [taken]
    rfl
  refine ⟨n, v, drawn, held, kind, number, fits, ?_⟩
  change EStateM.bind (randomLiteral (.restricted r)) _ ⟨p, stream⟩ = _
  rw [EStateM.bind, value]
  exact constant

end Builder

namespace Random

/-- From a domain something is drawn exactly if it has a member, and then a member, whatever the stream.
From an interval of 64-bit numbers that is not empty the machine draws that number with words: no sum
or difference overflows, neither where the ends are the least and the greatest word, and neither an
empty range nor an empty list of boundaries is ever drawn from, for then nothing would be given. So a literal
can be built for every restricted type that is made, of whatever kind; it is the number drawn, unchanged
as a value of that kind, and fits the type. -/
theorem integers_in_domain :
    (∀ (d : Domain) (s : Stream),
      ((inDomain d s).1 = none ↔ d.isEmpty = true) ∧
      ∀ n, (inDomain d s).1 = some n → d.holds n = true) ∧
    (∀ lo hi : Int64, lo ≤ hi → ∀ s : Stream,
      ∃ n, Machine.integerIn lo hi s = (some n, (integerIn lo.toInt hi.toInt s).2) ∧
        n.toInt = (integerIn lo.toInt hi.toInt s).1 ∧ lo ≤ n ∧ n ≤ hi ∧
        (inDomain (.range lo.toInt hi.toInt) s).1 = some n.toInt) ∧
    ∀ (base : Kind) (o : Outline) (t : Ty), Ty.restrictedTo? base o.domain = some t →
      ∀ (p : Program) (stream : Stream),
        ∃ n v e s, (inDomain o.domain stream).1 = some n ∧
          (Builder.literal t).build [] ⟨p, stream⟩ = .ok e s ∧
          s.program.node e = .constant v ∧ s.program.typeOf e = t ∧ v.fits t = true ∧
          v.kind? = some base ∧ v.toInt? = some n := by
  refine ⟨inDomain_spec, fun lo hi h s => ?_, fun base o t made p stream => ?_⟩
  · have ordered := Int64.le_iff_toInt_le.1 h
    obtain ⟨n, drawn, value⟩ := Machine.integerIn_eq h s
    have between := integerIn_mem ordered s
    rw [← value] at between
    refine ⟨n, drawn, value, Int64.le_iff_toInt_le.2 between.1, Int64.le_iff_toInt_le.2 between.2, ?_⟩
    unfold inDomain
    dsimp only
    rw [if_pos ordered, value]
    rfl
  · obtain ⟨r, of, rfl⟩ := Option.map_eq_some_iff.1 made
    obtain ⟨rfl, valid⟩ := (Restriction.of?_eq_some_iff o.ordered_domain).1 of
    obtain ⟨n, v, drawn, _, kind, number, fits, built⟩ := Builder.build_literal valid p stream
    exact ⟨n, v, _, _, drawn, built, Program.node_add .., Program.typeOf_add .., fits, kind, number⟩

end Random
end JavaSmith
