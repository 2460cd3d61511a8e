import JavaSmith.Proofs.Domains

/-! Domains of 64-bit numbers as sets. What a domain says of a number or of another domain is what the
set of its members says. Inclusion of an interval in a list can be decided with machine words alone:
its width is computed in 128 bits, its numbers are counted up in 64 and looked up by halving the list.
Nothing overflows, and no more numbers are looked up than the list has. -/
namespace JavaSmith

/-- How a domain of 64-bit numbers is given: by a list that holds its members, in any order and any
number of times, or by its two ends. -/
inductive Outline where
  | listed (values : List Int64)
  | between (lo hi : Int64)

namespace Outline

def domain : Outline → Domain
  | listed values => .ofList (values.map Int64.toInt)
  | between lo hi => .range lo.toInt hi.toInt

instance : Membership Int64 Outline where
  mem o n := match o with
    | listed values => n ∈ values
    | between lo hi => lo ≤ n ∧ n ≤ hi

variable {o a b : Outline} {n : Int64}

theorem ordered_domain (o : Outline) : o.domain.Ordered := by
  cases o with
  | listed values => exact Domain.ordered_ofList _
  | between lo hi => trivial

theorem mem_map_toInt {values : List Int64} : n.toInt ∈ values.map Int64.toInt ↔ n ∈ values := by
  simp [Int64.toInt_inj]

theorem holds_domain : o.domain.holds n.toInt = true ↔ n ∈ o := by
  cases o with
  | listed values => exact (Domain.holds_ofList ..).trans mem_map_toInt
  | between lo hi =>
    refine Domain.holds_range.trans ?_
    rw [← Int64.le_iff_toInt_le, ← Int64.le_iff_toInt_le]
    rfl

theorem exists_of_holds {k : Int} (held : o.domain.holds k = true) : ∃ n ∈ o, n.toInt = k := by
  have word : ∃ n : Int64, n.toInt = k := by
    cases o with
    | listed values =>
      obtain ⟨n, _, same⟩ := List.mem_map.1 ((Domain.holds_ofList ..).1 held)
      exact ⟨n, same⟩
    | between lo hi =>
      have between := Domain.holds_range.1 held
      have := lo.le_toInt
      have := hi.toInt_lt
      exact ⟨.ofInt k, Int64.toInt_ofInt_of_le (by omega) (by omega)⟩
  obtain ⟨n, rfl⟩ := word
  exact ⟨n, holds_domain.1 held, rfl⟩

theorem forall_holds_iff {P : Int → Prop} :
    (∀ k, o.domain.holds k = true → P k) ↔ ∀ n ∈ o, P n.toInt := by
  constructor
  · exact fun all n member => all _ (holds_domain.2 member)
  · intro all k held
    obtain ⟨n, member, rfl⟩ := exists_of_holds held
    exact all n member

theorem domain_eq_iff {values values' : List Int64} :
    (listed values).domain = (listed values').domain ↔ ∀ n, n ∈ values ↔ n ∈ values' := by
  constructor
  · intro same n
    have held : (listed values).domain.holds n.toInt = true ↔ n ∈ listed values := holds_domain
    rw [same] at held
    exact held.symm.trans holds_domain
  · intro same
    refine congrArg Domain.set ((pairwise_ascending _).eq_of_mem_iff (pairwise_ascending _) ?_)
    intro k
    rw [mem_ascending, mem_ascending, List.mem_map, List.mem_map]
    simp only [same]

theorem contains_iff : a.domain.contains b.domain = true ↔ ∀ n ∈ b, n ∈ a := by
  have inclusion : a.domain.contains b.domain = true ↔
      ∀ k, b.domain.holds k = true → a.domain.holds k = true :=
    ⟨fun h _ => Domain.holds_of_contains h, Domain.contains_of_forall⟩
  rw [inclusion, forall_holds_iff]
  simp only [holds_domain]

theorem isEmpty_iff : o.domain.isEmpty = true ↔ ∀ n, n ∉ o := by
  constructor
  · intro empty n member
    have := Domain.not_holds_of_isEmpty empty n.toInt
    rw [holds_domain.2 member] at this
    contradiction
  · intro empty
    by_contra inhabited
    obtain ⟨least, first⟩ := Option.ne_none_iff_exists'.1 (mt Option.isNone_iff_eq_none.2 inhabited)
    obtain ⟨n, member, _⟩ := exists_of_holds (Domain.holds_of_min? first)
    exact empty n member

theorem min?_iff {k : Int} :
    o.domain.min? = some k ↔ ∃ n ∈ o, n.toInt = k ∧ ∀ m ∈ o, n ≤ m := by
  constructor
  · intro first
    obtain ⟨n, member, rfl⟩ := exists_of_holds (Domain.holds_of_min? first)
    refine ⟨n, member, rfl, fun m other => Int64.le_iff_toInt_le.2 ?_⟩
    exact Domain.min?_le o.ordered_domain first (holds_domain.2 other)
  · rintro ⟨n, member, rfl, least⟩
    obtain ⟨k, _, first, _⟩ := Domain.exists_ends (holds_domain.2 member)
    obtain ⟨m, other, rfl⟩ := exists_of_holds (Domain.holds_of_min? first)
    have below := Domain.min?_le o.ordered_domain first (holds_domain.2 member)
    rw [first, Int.le_antisymm below (Int64.le_iff_toInt_le.1 (least m other))]

theorem max?_iff {k : Int} :
    o.domain.max? = some k ↔ ∃ n ∈ o, n.toInt = k ∧ ∀ m ∈ o, m ≤ n := by
  constructor
  · intro last
    obtain ⟨n, member, rfl⟩ := exists_of_holds (Domain.holds_of_max? last)
    refine ⟨n, member, rfl, fun m other => Int64.le_iff_toInt_le.2 ?_⟩
    exact Domain.le_max? o.ordered_domain last (holds_domain.2 other)
  · rintro ⟨n, member, rfl, greatest⟩
    obtain ⟨_, k, _, last⟩ := Domain.exists_ends (holds_domain.2 member)
    obtain ⟨m, other, rfl⟩ := exists_of_holds (Domain.holds_of_max? last)
    have above := Domain.le_max? o.ordered_domain last (holds_domain.2 member)
    rw [last, Int.le_antisymm (Int64.le_iff_toInt_le.1 (greatest m other)) above]

end Outline

/-! The same with machine words. -/
namespace Machine

open Int64 (lt_iff_toInt_lt le_iff_toInt_le)

/-- Whether the number stands between two places of an ascending array, found by halving. -/
def lookUp (members : Array Int64) (n : Int64) (start stop : Nat) (h : stop ≤ members.size) : Bool :=
  if _inside : start < stop then
    let middle := start + (stop - start) / 2
    have _ : middle < members.size := by omega
    if members[middle] = n then true
    else if members[middle] < n then lookUp members n (middle + 1) stop h
    else lookUp members n start middle (by omega)
  else false
termination_by stop - start

/-- Whether the number stands in the ascending array. -/
def isMember (members : Array Int64) (n : Int64) : Bool :=
  lookUp members n 0 members.size (Nat.le_refl _)

theorem toInt_succ {n hi : Int64} (h : n < hi) : (n + 1).toInt = n.toInt + 1 := by
  have := lt_iff_toInt_lt.1 h
  have := n.le_toInt
  have := hi.toInt_lt
  rw [Int64.toInt_add]
  exact Int.bmod_eq_of_le (by change _ ≤ n.toInt + 1; omega) (by change n.toInt + 1 < _; omega)

/-- Looks up the numbers from `n` to `hi`, one after another, until one is missing; beside the answer
stands how many were looked up. -/
def walk (p : Int64 → Bool) (n hi : Int64) : Bool × Nat :=
  if p n then
    if _h : n < hi then
      let (all, count) := walk p (n + 1) hi
      (all, count + 1)
    else (true, 1)
  else (false, 1)
termination_by (hi.toInt - n.toInt).toNat
decreasing_by
  have := toInt_succ _h
  have := lt_iff_toInt_lt.1 _h
  omega

def width (lo hi : Int64) : BitVec 128 :=
  hi.toBitVec.signExtend 128 - lo.toBitVec.signExtend 128 + 1

/-- Whether an interval lies within an ascending array, and how many numbers are looked up for it. -/
def intervalWithin (members : Array Int64) (lo hi : Int64) : Bool × Nat :=
  if hi < lo then (true, 0)
  else if (width lo hi).sle (BitVec.ofNat 128 members.size) then
    walk (isMember members) lo hi
  else (false, 0)

variable {members : Array Int64} {n lo hi : Int64}

theorem toInt_lt_toInt (sorted : members.toList.Pairwise (· < ·)) {i j : Nat} (before : i < j)
    (inside : j < members.size) : members[i].toInt < members[j].toInt := by
  have := List.pairwise_iff_getElem.1 sorted i j (by simp; omega) (by simpa) before
  simpa [lt_iff_toInt_lt] using this

theorem lookUp_iff (sorted : members.toList.Pairwise (· < ·)) {start stop : Nat}
    (h : stop ≤ members.size) :
    lookUp members n start stop h = true ↔
      ∃ i, start ≤ i ∧ i < stop ∧ ∃ inside : i < members.size, members[i] = n := by
  fun_induction lookUp members n start stop h with
  | case1 start stop h inside middle below found =>
    have : middle = start + (stop - start) / 2 := rfl
    exact iff_of_true rfl ⟨middle, by omega, by omega, below, found⟩
  | case2 start stop h inside middle below differs less ih =>
    have : middle = start + (stop - start) / 2 := rfl
    rw [ih]
    -- what stands at `middle` or before it is smaller
    constructor
    · rintro ⟨i, low, high, place⟩
      exact ⟨i, by omega, high, place⟩
    · rintro ⟨i, low, high, place, rfl⟩
      refine ⟨i, ?_, high, place, rfl⟩
      by_contra left
      rcases Nat.lt_or_eq_of_le (show i ≤ middle by omega) with before | rfl
      · have := toInt_lt_toInt sorted before below
        have := lt_iff_toInt_lt.1 less
        omega
      · exact differs rfl
  | case3 start stop h inside middle below differs notLess ih =>
    have : middle = start + (stop - start) / 2 := rfl
    rw [ih]
    -- what stands at `middle` or behind it is greater
    constructor
    · rintro ⟨i, low, high, place⟩
      exact ⟨i, low, by omega, place⟩
    · rintro ⟨i, low, high, place, rfl⟩
      refine ⟨i, low, ?_, place, rfl⟩
      by_contra right
      rcases Nat.lt_or_eq_of_le (show middle ≤ i by omega) with behind | same
      · exact notLess (lt_iff_toInt_lt.2 (toInt_lt_toInt sorted behind place))
      · subst same
        exact differs rfl
  | case4 start stop h outside =>
    refine iff_of_false Bool.false_ne_true ?_
    rintro ⟨i, low, high, _⟩
    omega

theorem isMember_iff (sorted : members.toList.Pairwise (· < ·)) (n : Int64) :
    isMember members n = true ↔ n ∈ members := by
  rw [isMember, lookUp_iff sorted, Array.mem_iff_getElem]
  constructor
  · rintro ⟨i, _, _, place, same⟩
    exact ⟨i, place, same⟩
  · rintro ⟨i, place, same⟩
    exact ⟨i, Nat.zero_le i, place, place, same⟩

/-- All numbers of the interval are looked up if each is a member, and no number twice. -/
theorem walk_spec (p : Int64 → Bool) (h : n ≤ hi) :
    ((walk p n hi).1 = true ↔ ∀ k, n ≤ k → k ≤ hi → p k = true) ∧
      ((walk p n hi).2 : Int) ≤ hi.toInt - n.toInt + 1 := by
  have ordered := le_iff_toInt_le.1 h
  fun_induction walk p n hi with
  | case1 n member less all count walked ih =>
    have next := toInt_succ less
    have below := lt_iff_toInt_lt.1 less
    obtain ⟨answer, looked⟩ := ih (le_iff_toInt_le.2 (by omega)) (by omega)
    rw [walked] at answer looked
    dsimp only at answer looked ⊢
    refine ⟨answer.trans ⟨fun later k low high => ?_, fun whole k low high => ?_⟩, by omega⟩
    · by_cases first : k = n
      · exact first ▸ member
      · have : k.toInt ≠ n.toInt := mt Int64.toInt_inj.1 first
        have := le_iff_toInt_le.1 low
        exact later k (le_iff_toInt_le.2 (by omega)) high
    · have := le_iff_toInt_le.1 low
      exact whole k (le_iff_toInt_le.2 (by omega)) high
  | case2 n member last =>
    refine ⟨iff_of_true rfl fun k low high => ?_, by dsimp only; omega⟩
    have same : k = n := by
      have := le_iff_toInt_le.1 low
      have := le_iff_toInt_le.1 high
      have := mt lt_iff_toInt_lt.2 last
      exact Int64.toInt_inj.1 (by omega)
    exact same ▸ member
  | case3 n missing =>
    refine ⟨iff_of_false Bool.false_ne_true fun whole => ?_, by dsimp only; omega⟩
    exact missing (whole n (le_iff_toInt_le.2 (Int.le_refl _)) h)

theorem width_fits (lo hi : Int64) :
    let low := lo.toBitVec.signExtend 128
    let high := hi.toBitVec.signExtend 128
    high.ssubOverflow low = false ∧ (high - low).saddOverflow 1 = false ∧
      (width lo hi).toInt = hi.toInt - lo.toInt + 1 := by
  intro low high
  have lowInt : low.toInt = lo.toInt := BitVec.toInt_signExtend_of_le (by decide)
  have highInt : high.toInt = hi.toInt := BitVec.toInt_signExtend_of_le (by decide)
  have one : (1 : BitVec 128).toInt = 1 := by decide
  have := lo.le_toInt
  have := lo.toInt_lt
  have := hi.le_toInt
  have := hi.toInt_lt
  have sub : high.ssubOverflow low = false := by
    simp only [BitVec.ssubOverflow, lowInt, highInt, Bool.or_eq_false_iff, decide_eq_false_iff_not]
    omega
  have difference : (high - low).toInt = hi.toInt - lo.toInt := by
    rw [BitVec.toInt_sub_of_not_ssubOverflow (Bool.eq_false_iff.1 sub), lowInt, highInt]
  have add : (high - low).saddOverflow 1 = false := by
    simp only [BitVec.saddOverflow, difference, one, Bool.or_eq_false_iff, decide_eq_false_iff_not]
    omega
  refine ⟨sub, add, ?_⟩
  rw [← difference, ← one]
  exact BitVec.toInt_add_of_not_saddOverflow (Bool.eq_false_iff.1 add)

theorem length_le_of_ascending {xs : List Int} {lo hi : Int} (sorted : xs.Pairwise (· < ·))
    (inside : ∀ n ∈ xs, lo ≤ n ∧ n ≤ hi) (h : lo ≤ hi + 1) : (xs.length : Int) ≤ hi - lo + 1 := by
  induction xs generalizing lo with
  | nil =>
    rw [List.length_nil]
    omega
  | cons a rest ih =>
    have first := inside a List.mem_cons_self
    have later : ∀ n ∈ rest, a + 1 ≤ n ∧ n ≤ hi := fun n member =>
      ⟨List.rel_of_pairwise_cons sorted member, (inside n (.tail _ member)).2⟩
    have := ih sorted.of_cons later (by omega)
    rw [List.length_cons]
    omega

theorem toInt_size (sorted : members.toList.Pairwise (· < ·)) :
    (BitVec.ofNat 128 members.size).toInt = members.size := by
  have words : (members.toList.map Int64.toInt).Pairwise (· < ·) :=
    List.pairwise_map.2 (sorted.imp lt_iff_toInt_lt.1)
  have bounded : ∀ k ∈ members.toList.map Int64.toInt, (-2 ^ 63 : Int) ≤ k ∧ k ≤ 2 ^ 63 - 1 := by
    intro k member
    obtain ⟨n, _, rfl⟩ := List.mem_map.1 member
    have := n.le_toInt
    have := n.toInt_lt
    omega
  have few := length_le_of_ascending words bounded (by decide)
  rw [List.length_map, Array.length_toList] at few
  rw [BitVec.toInt_ofNat']
  exact Int.bmod_eq_of_le (by omega) (by omega)

theorem interval_short (within : ∀ n, lo ≤ n → n ≤ hi → n ∈ members) (h : lo ≤ hi) :
    hi.toInt - lo.toInt + 1 ≤ members.size := by
  have ordered := le_iff_toInt_le.1 h
  have size : ((hi.toInt - lo.toInt + 1).toNat : Int) = hi.toInt - lo.toInt + 1 := by omega
  have words : ∀ k : Int, lo.toInt ≤ k → k < lo.toInt + (hi.toInt - lo.toInt + 1).toNat →
      k ∈ members.toList.map Int64.toInt := by
    intro k low high
    have held : (Outline.between lo hi).domain.holds k = true :=
      Domain.holds_range.2 ⟨low, by omega⟩
    obtain ⟨n, between, rfl⟩ := Outline.exists_of_holds held
    exact List.mem_map_of_mem (Array.mem_toList_iff.2 (within n between.1 between.2))
  have short := Domain.length_le_of_subset words
  rw [List.length_map, Array.length_toList] at short
  omega

/-- What is looked up with machine words is what the list has, and not more than that. -/
theorem intervalWithin_spec (sorted : members.toList.Pairwise (· < ·)) (lo hi : Int64) :
    ((intervalWithin members lo hi).1 = true ↔ ∀ n, lo ≤ n → n ≤ hi → n ∈ members) ∧
      (intervalWithin members lo hi).2 ≤ members.size := by
  have shorter : (width lo hi).sle (BitVec.ofNat 128 members.size) = true ↔
      hi.toInt - lo.toInt + 1 ≤ members.size := by
    rw [BitVec.sle_iff_toInt_le, (width_fits lo hi).2.2, toInt_size sorted]
  unfold intervalWithin
  split
  · next empty =>
    have := lt_iff_toInt_lt.1 empty
    refine ⟨iff_of_true rfl fun n low high => ?_, Nat.zero_le _⟩
    have := le_iff_toInt_le.1 low
    have := le_iff_toInt_le.1 high
    omega
  · next inhabited =>
    have ordered : lo ≤ hi := by
      have := mt lt_iff_toInt_lt.2 inhabited
      exact le_iff_toInt_le.2 (by omega)
    split
    · next short =>
      have := shorter.1 short
      obtain ⟨answer, looked⟩ := walk_spec (isMember members) ordered
      simp only [isMember_iff sorted] at answer
      exact ⟨answer, by omega⟩
    · next long =>
      -- a list that had every number of the interval would not be shorter
      refine ⟨iff_of_false Bool.false_ne_true fun within => long (shorter.2 ?_), Nat.zero_le _⟩
      exact interval_short within ordered

end Machine

instance strictTotalOrder_int64 : IsStrictTotalOrder Int64 (· < ·) where
  irrefl _ := Int64.lt_irrefl
  trans _ _ _ := Int64.lt_trans
  trichotomous _ _ h h' := Int64.le_antisymm (Int64.not_lt.1 h') (Int64.not_lt.1 h)

open Outline in
/-- The domain that is given by a list has the members of the list and no others, whatever their order
and number; the one given by two ends has the numbers between them. Inclusion, emptiness, least and
greatest member are those of the set of members. And whether an interval lies within a list is found
with machine words: the width does not overflow 128 bits, and not more numbers are looked up, by
halving, than the list has. -/
theorem domains_decide_sets :
    (∀ (o : Outline) (n : Int64), o.domain.holds n.toInt = true ↔ n ∈ o) ∧
    (∀ values values' : List Int64,
      (listed values).domain = (listed values').domain ↔ ∀ n, n ∈ values ↔ n ∈ values') ∧
    (∀ a b : Outline, a.domain.contains b.domain = true ↔ ∀ n ∈ b, n ∈ a) ∧
    (∀ o : Outline,
      (o.domain.isEmpty = true ↔ ∀ n, n ∉ o) ∧
      (∀ k, o.domain.min? = some k ↔ ∃ n ∈ o, n.toInt = k ∧ ∀ m ∈ o, n ≤ m) ∧
      (∀ k, o.domain.max? = some k ↔ ∃ n ∈ o, n.toInt = k ∧ ∀ m ∈ o, m ≤ n)) ∧
    (∀ (values : List Int64) (lo hi : Int64),
      let members := (ascending values).toArray
      let low := lo.toBitVec.signExtend 128
      let high := hi.toBitVec.signExtend 128
      (∀ n, Machine.isMember members n =
        (listed values).domain.holds n.toInt) ∧
      (Machine.intervalWithin members lo hi).1 =
        (listed values).domain.contains (between lo hi).domain ∧
      (Machine.intervalWithin members lo hi).2 ≤ members.size ∧
      high.ssubOverflow low = false ∧ (high - low).saddOverflow 1 = false ∧
      (Machine.width lo hi).toInt = hi.toInt - lo.toInt + 1) := by
  refine ⟨fun _ _ => holds_domain, fun _ _ => domain_eq_iff, fun _ _ => contains_iff,
    fun _ => ⟨isEmpty_iff, fun _ => min?_iff, fun _ => max?_iff⟩, fun values lo hi => ?_⟩
  intro members low high
  have sorted : members.toList.Pairwise (· < ·) := pairwise_ascending values
  have mem (n : Int64) : n ∈ members ↔ n ∈ values := by simp [members]
  obtain ⟨answer, looked⟩ := Machine.intervalWithin_spec sorted lo hi
  refine ⟨fun n => ?_, ?_, looked, Machine.width_fits lo hi⟩
  · rw [Bool.eq_iff_iff, Machine.isMember_iff sorted, mem, holds_domain]
    rfl
  · rw [Bool.eq_iff_iff, answer, contains_iff]
    simp only [mem]
    exact ⟨fun all n inside => all n inside.1 inside.2, fun all n low high => all n ⟨low, high⟩⟩

end JavaSmith
