import JavaSmith.Random.Constant
import JavaSmith.Random.Distribution

/-! What a draw gives whatever words the stream holds. Nothing is said about how likely a result is,
only about which results there are. -/
namespace JavaSmith

/-- A floating-point number is one of the listed patterns; nothing is said of other constants. -/
def Value.Drawn : Value → Prop
  | .float bits => bits ∈ Random.floatPatterns
  | .double bits => bits ∈ Random.doublePatterns
  | _ => True

theorem Value.drawn_of_fits_restricted {v : Value} {r : Restriction}
    (fits : v.fits (.restricted r) = true) : v.Drawn := by
  cases v with
  | float | double => simp [Value.fits, Value.toInt?] at fits
  | _ => trivial

namespace Random

/-- The result has the property for every stream. -/
def Always (d : Draw α) (P : α → Prop) : Prop := ∀ s, P (d s).1

theorem Always.pure {a : α} {P : α → Prop} (h : P a) : Always (pure a) P := fun _ => h

theorem Always.bind {d : Draw α} {f : α → Draw β} {P : α → Prop} {Q : β → Prop}
    (h : Always d P) (h' : ∀ a, P a → Always (f a) Q) : Always (d >>= f) Q :=
  fun s => h' _ (h s) (d s).2

theorem Always.mono {d : Draw α} {P Q : α → Prop} (h : Always d P) (imp : ∀ a, P a → Q a) :
    Always d Q :=
  fun s => imp _ (h s)

theorem Always.trivial (d : Draw α) : Always d fun _ => True := fun _ => True.intro

theorem Always.firstOf {d : Draw (Option α)} {f : Option α → Draw (Option α)} {P : α → Prop}
    {none₁ none₂ : Prop} (keeps : ∀ a, f (some a) = Pure.pure (some a))
    (h : Always d fun o => (∀ a, o = some a → P a) ∧ (o = none → none₁))
    (h' : Always (f none) fun o => (∀ a, o = some a → P a) ∧ (o = none → none₂)) :
    Always (d >>= f) fun o => (∀ a, o = some a → P a) ∧ (o = none → none₁ ∧ none₂) := by
  refine Always.bind h ?_
  rintro (_ | a) ⟨found, lost⟩
  · exact h'.mono fun o ⟨found', lost'⟩ => ⟨found', fun none => ⟨lost rfl, lost' none⟩⟩
  · rw [keeps a]
    exact Always.pure ⟨found, fun none => absurd none (Option.some_ne_none a)⟩

/-- Something is found exactly if there is something with the property, and then it has it, whatever
words the stream holds. -/
def Finds (d : Draw (Option α)) (P : α → Prop) : Prop :=
  Always d fun o => (∀ a, o = some a → P a) ∧ (o = none ↔ ∀ a, ¬P a)

theorem Finds.of_always {d : Draw (Option α)} {P : α → Prop}
    (h : Always d fun o => (∀ a, o = some a → P a) ∧ (o = none → ∀ a, ¬P a)) : Finds d P := by
  refine h.mono fun o ⟨found, lost⟩ => ⟨found, lost, fun absent => ?_⟩
  cases o with
  | none => rfl
  | some a => exact absurd (found a rfl) (absent a)

theorem Finds.congr {d : Draw (Option α)} {P Q : α → Prop} (h : Finds d P)
    (same : ∀ a, P a ↔ Q a) : Finds d Q := by
  obtain rfl : P = Q := funext fun a => propext (same a)
  exact h

theorem always_index {size : Nat} (h : 0 < size) : Always (index size) (· < size) :=
  fun s => index_lt h s

theorem always_roll (percentage : Nat) :
    Always (roll percentage) fun b =>
      (b = true → 0 < percentage) ∧ (b = false → percentage < 100) := by
  unfold roll
  split
  · next zero =>
    apply Always.pure
    exact ⟨fun h => absurd h Bool.false_ne_true, fun _ => by omega⟩
  · next positive =>
    refine Always.bind (always_index (by decide : 0 < 100)) ?_
    intro n below
    apply Always.pure
    refine ⟨fun _ => by omega, fun h => ?_⟩
    have := of_decide_eq_false h
    omega

theorem always_choose {xs : List α} (h : xs ≠ []) :
    Always (choose xs) fun o => ∃ x ∈ xs, o = some x := by
  unfold choose
  rw [if_neg (by simpa using h)]
  refine Always.bind (always_index (List.length_pos_iff.2 h)) ?_
  intro i below
  apply Always.pure
  exact ⟨xs[i], List.getElem_mem below, List.getElem?_eq_getElem below⟩

theorem reservoir_isSome {xs : List α} {met : Nat} {kept : Option α} (h : kept.isSome) :
    Always (reservoir met kept xs) fun o => o.isSome := by
  induction xs generalizing met kept with
  | nil => exact Always.pure h
  | cons x rest ih =>
    unfold reservoir
    refine Always.bind (Always.trivial _) ?_
    intro i _
    apply ih
    split
    · rfl
    · exact h

/-- Of the candidates one is chosen, and none only where there are none. -/
theorem always_chooseOneByOne (xs : List α) :
    Always (chooseOneByOne xs) fun o => (∀ x, o = some x → x ∈ xs) ∧ (o = none → xs = []) := by
  intro s
  refine ⟨fun x => chooseOneByOne_mem, ?_⟩
  cases xs with
  | nil => exact fun _ => rfl
  | cons x rest =>
    intro none
    have first : Always (chooseOneByOne (x :: rest)) fun o => o.isSome := by
      refine Always.bind (always_index (Nat.lt_succ_self 0)) ?_
      intro i below
      obtain rfl : i = 0 := by omega
      exact reservoir_isSome rfl
    have := first s
    rw [none] at this
    contradiction

theorem swapIfInBounds_perm (xs : Array α) (i j : Nat) : (xs.swapIfInBounds i j).Perm xs := by
  rw [Array.swapIfInBounds_def]
  split
  · split
    · exact Array.swap_perm ..
    · exact .rfl
  · exact .rfl

theorem shuffleFrom_perm (xs : Array α) (last : Nat) :
    Always (shuffleFrom xs last) fun ys => ys.Perm xs := by
  induction last generalizing xs with
  | zero => exact Always.pure .rfl
  | succ last ih =>
    refine Always.bind (Always.trivial _) ?_
    intro j _
    exact (ih _).mono fun ys perm => perm.trans (swapIfInBounds_perm ..)

theorem shuffle_perm (xs : List α) : Always (shuffle xs) fun ys => ys.Perm xs := by
  refine Always.bind (shuffleFrom_perm xs.toArray _) ?_
  intro ys perm
  exact Always.pure (Array.perm_iff_toList_perm.1 perm)

theorem atWeight_mem {target : Nat} {xs : List (α × Nat)} {x : α} (h : atWeight target xs = some x) :
    ∃ weight, (x, weight) ∈ xs ∧ 0 < weight := by
  induction xs generalizing target with
  | nil => contradiction
  | cons first rest ih =>
    obtain ⟨y, weight⟩ := first
    unfold atWeight at h
    split at h
    · next below =>
      cases h
      exact ⟨weight, List.mem_cons_self, by omega⟩
    · obtain ⟨w, member, positive⟩ := ih h
      exact ⟨w, List.mem_cons_of_mem _ member, positive⟩

theorem always_chooseByShare (xs : List (α × Nat)) :
    Always (chooseByShare xs) fun o => ∀ x, o = some x → ∃ weight, (x, weight) ∈ xs ∧ 0 < weight := by
  unfold chooseByShare
  dsimp only
  split
  · exact Always.pure fun x h => by contradiction
  · refine Always.bind (Always.trivial _) ?_
    intro target _
    exact Always.pure fun x => atWeight_mem

theorem atWeight_isSome {target : Nat} {xs : List (α × Nat)} (h : target < totalWeight xs) :
    (atWeight target xs).isSome = true := by
  induction xs generalizing target with
  | nil => exact absurd h (Nat.not_lt_zero _)
  | cons first rest ih =>
    obtain ⟨x, weight⟩ := first
    unfold atWeight
    split
    · rfl
    · refine ih ?_
      rw [totalWeight] at h
      omega

theorem always_chooseByShare_isSome {xs : List (α × Nat)} (h : 0 < totalWeight xs) :
    Always (chooseByShare xs) fun o => o.isSome = true := by
  unfold chooseByShare
  dsimp only
  rw [if_neg (Nat.ne_of_gt h)]
  have drawn : Always (indexExact (totalWeight xs)) (· < totalWeight xs) := indexExact_lt h
  exact Always.bind drawn fun target below => Always.pure (atWeight_isSome below)

theorem always_binomial (trials : Nat) : Always (binomial trials) (· ≤ trials) := binomial_le trials

theorem always_float : Always float (· ∈ floatPatterns) := by
  refine Always.bind (always_choose (by decide)) ?_
  rintro _ ⟨bits, member, rfl⟩
  exact Always.pure member

theorem always_double : Always double (· ∈ doublePatterns) := by
  refine Always.bind (always_choose (by decide)) ?_
  rintro _ ⟨bits, member, rfl⟩
  exact Always.pure member

theorem always_constant (k : Kind) : Always (constant k) fun v => v.kind? = some k ∧ v.Drawn := by
  cases k with
  | float => exact always_float.bind fun _ member => Always.pure ⟨rfl, member⟩
  | double => exact always_double.bind fun _ member => Always.pure ⟨rfl, member⟩
  | _ => exact (Always.trivial _).bind fun _ _ => Always.pure ⟨rfl, trivial⟩

theorem always_inDomain {d : Domain} (h : d.isEmpty = false) :
    Always (inDomain d) fun o => ∃ n, o = some n ∧ d.holds n = true := by
  cases d with
  | set members =>
    have inhabited : members ≠ [] := by
      rintro rfl
      contradiction
    refine Always.mono (always_choose inhabited) ?_
    rintro _ ⟨n, member, rfl⟩
    exact ⟨n, rfl, by simpa [Domain.holds] using member⟩
  | range lo hi =>
    have ordered : lo ≤ hi := by
      simpa [Domain.isEmpty, Domain.min?] using h
    unfold inDomain
    dsimp only
    rw [if_pos ordered]
    have drawn : Always (integerIn lo hi) fun n => lo ≤ n ∧ n ≤ hi := integerIn_mem ordered
    refine Always.bind drawn ?_
    intro n between
    exact Always.pure ⟨n, rfl, Domain.holds_range.2 between⟩

end Random
end JavaSmith
