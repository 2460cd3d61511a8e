import JavaSmith.Ascending

/-! Sets of integers a variable may be restricted to. A domain is a finite list kept ascending, or
an interval; `contains` decides inclusion without walking an interval wider than the list it is
compared with. -/
namespace JavaSmith

inductive Domain where
  | set (members : List Int)
  | range (lo hi : Int)
  deriving DecidableEq, Inhabited

namespace Domain

def ofList (values : List Int) : Domain := .set (ascending values)

def holds : Domain → Int → Bool
  | .set members, n => members.contains n
  | .range lo hi, n => lo ≤ n && n ≤ hi

def min? : Domain → Option Int
  | .set members => members.head?
  | .range lo hi => if lo ≤ hi then some lo else none

def max? : Domain → Option Int
  | .set members => members.getLast?
  | .range lo hi => if lo ≤ hi then some hi else none

def isEmpty (d : Domain) : Bool := d.min?.isNone

/-- `count` consecutive numbers starting at `lo`, all of them in the domain. -/
def holdsFrom (d : Domain) (lo : Int) : Nat → Bool
  | 0 => true
  | count + 1 => d.holds lo && d.holdsFrom (lo + 1) count

/-- Whether every number of `inner` is one of `outer`. An interval can only lie within a list that
has at least as many members, so at most that many numbers are looked up. -/
def contains (outer inner : Domain) : Bool :=
  inner.isEmpty ||
  match outer, inner with
  | _, .set members => members.all outer.holds
  | .range lo hi, .range lo' hi' => lo ≤ lo' && hi' ≤ hi
  | .set members, .range lo hi =>
    hi - lo + 1 ≤ members.length && outer.holdsFrom lo (hi - lo + 1).toNat

def excludesZero (d : Domain) : Bool := !d.holds 0

theorem holds_ofList (values : List Int) (n : Int) :
    (ofList values).holds n = true ↔ n ∈ values := by
  simp [ofList, holds]

theorem holds_range {lo hi n : Int} : (range lo hi).holds n = true ↔ lo ≤ n ∧ n ≤ hi := by
  simp [holds]

theorem holdsFrom_iff (d : Domain) (count : Nat) (lo : Int) :
    d.holdsFrom lo count = true ↔ ∀ n, lo ≤ n → n < lo + count → d.holds n = true := by
  induction count generalizing lo with
  | zero => simp only [holdsFrom, true_iff]; omega
  | succ count ih =>
    simp only [holdsFrom, Bool.and_eq_true, ih]
    constructor
    · rintro ⟨first, others⟩ n h h'
      by_cases e : n = lo
      · exact e ▸ first
      · exact others n (by omega) (by omega)
    · exact fun all => ⟨all lo (by omega) (by omega), fun n h h' => all n (by omega) (by omega)⟩

end Domain
end JavaSmith
