import JavaSmith.Value
import JavaSmith.Proofs.Domains

/-! Constants that fit their types. -/
namespace JavaSmith.Value

theorem integer?_of_bounds {k : Kind} {lo hi n : Int} (bounds : k.bounds? = some (lo, hi))
    (low : lo ≤ n) (high : n ≤ hi) :
    ∃ v, integer? k n = some v ∧ v.kind? = some k ∧ v.toInt? = some n := by
  unfold integer?
  rw [bounds]
  dsimp only
  rw [if_neg (by omega)]
  cases k with
  | byte =>
    cases bounds
    exact ⟨_, rfl, rfl, congrArg some (Int8.toInt_ofInt_of_le low (by omega))⟩
  | short =>
    cases bounds
    exact ⟨_, rfl, rfl, congrArg some (Int16.toInt_ofInt_of_le low (by omega))⟩
  | char =>
    cases bounds
    refine ⟨_, rfl, rfl, congrArg some ?_⟩
    rw [UInt16.toNat_ofNat_of_lt' (by unfold UInt16.size; omega)]
    omega
  | int =>
    cases bounds
    exact ⟨_, rfl, rfl, congrArg some (Int32.toInt_ofInt_of_le low (by omega))⟩
  | long =>
    cases bounds
    exact ⟨_, rfl, rfl, congrArg some (Int64.toInt_ofInt_of_le low (by omega))⟩
  | _ => contradiction

theorem exists_bounds {v : Value} {k : Kind} {n : Int} (kind : v.kind? = some k)
    (number : v.toInt? = some n) : ∃ lo hi, k.bounds? = some (lo, hi) ∧ lo ≤ n ∧ n ≤ hi := by
  cases v with
  | byte m | short m | int m | long m =>
    cases kind
    cases number
    exact ⟨_, _, rfl, m.le_toInt, Int.le_of_lt_add_one m.toInt_lt⟩
  | char unit =>
    cases kind
    cases number
    have := unit.toNat_lt
    exact ⟨_, _, rfl, by omega, by omega⟩
  | _ => contradiction

theorem fits_restricted {r : Restriction} {v : Value} {n : Int} (kind : v.kind? = some r.base)
    (number : v.toInt? = some n) (held : r.domain.holds n = true) :
    v.fits (.restricted r) = true := by
  cases v <;> first | contradiction | simp_all [fits]

theorem integer?_fits {r : Restriction} (valid : r.Valid) {n : Int}
    (held : r.domain.holds n = true) :
    ∃ v, integer? r.base n = some v ∧ v.fits (.restricted r) = true := by
  obtain ⟨lo, hi, bounds, within⟩ := valid.bounded
  obtain ⟨v, made, kind, number⟩ := integer?_of_bounds bounds (within n held).1 (within n held).2
  exact ⟨v, made, fits_restricted kind number held⟩

theorem exists_of_fits_restricted {r : Restriction} {v : Value} (fits : v.fits (.restricted r) = true) :
    ∃ n, v.kind? = some r.base ∧ v.toInt? = some n ∧ r.domain.holds n = true := by
  cases v with
  | null | string => contradiction
  | _ =>
    obtain ⟨kind, number⟩ := Bool.and_eq_true_iff.1 fits
    obtain ⟨n, same, held⟩ := (Option.any_eq_true _ _).1 number
    exact ⟨n, by simpa using kind, same, held⟩

theorem fits_primitive {v : Value} {k : Kind} (kind : v.kind? = some k) :
    v.fits (.primitive k) = true := by
  cases v <;> first | contradiction | simp_all [fits]

theorem kind?_of_fits {v : Value} {t : Ty} {k : Kind} (fits : v.fits t = true)
    (kind : t.kind? = some k) : v.kind? = some k := by
  cases t with
  | primitive k' =>
    cases kind
    cases v <;> first | contradiction | simpa [Value.fits] using fits
  | restricted r =>
    cases kind
    exact (exists_of_fits_restricted fits).choose_spec.1
  | _ => contradiction

end JavaSmith.Value
