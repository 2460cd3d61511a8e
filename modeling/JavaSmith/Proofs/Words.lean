import JavaSmith.Proofs.Naming
import JavaSmith.Proofs.Phrases
import JavaSmith.Proofs.Stock

/-! Words of expressions: literals without quotes, and names. The ends of a word tell what it is, and
within its sort it is told from others by all of it. -/
namespace JavaSmith

theorem isWordChar_of {P : Char → Bool} {c : Char} (holds : P c = true)
    (delimiters : ∀ d ∈ ['(', ')', '[', ']', ' ', ',', '"', quoteMark], P d = false) :
    isWordChar c = true := by
  by_contra delimiter
  rw [isWordChar, Bool.not_eq_true', Bool.not_eq_false, List.contains_iff_mem] at delimiter
  rw [delimiters c delimiter] at holds
  contradiction

theorem isWordChar_of_isDigit {c : Char} (digit : c.isDigit = true) : isWordChar c = true :=
  isWordChar_of digit (by simp [quoteMark])

theorem isWordChar_of_isAlpha {c : Char} (letter : c.isAlpha = true) : isWordChar c = true :=
  isWordChar_of letter (by simp [quoteMark])

def numeral (n : Int) : List Char :=
  if 0 ≤ n then Nat.toDigits 10 n.toNat else '-' :: Nat.toDigits 10 (-n).toNat

theorem toList_toString_int (n : Int) : (toString n).toList = numeral n := by
  rw [Int.toString_eq_repr, Int.repr_eq_if, numeral]
  split <;> simp

theorem toList_toString_nat (n : Nat) : (toString n).toList = numeral n := by
  rw [numeral, if_pos (Int.natCast_nonneg n)]
  simp

theorem toNat_ofNat_printable {unit : UInt16} (range : 32 ≤ unit ∧ unit ≤ 126) :
    (Char.ofNat unit.toNat).toNat = unit.toNat := by
  have ascii : ∀ n < 127, (Char.ofNat n).toNat = n := by decide
  exact ascii _ (Nat.lt_succ_of_le (UInt16.le_iff_toNat_le.1 range.2))

theorem isDigit_of_mem_toDigits {n : Nat} {c : Char} (member : c ∈ Nat.toDigits 10 n) :
    c.isDigit = true :=
  Nat.isDigit_of_mem_toDigits (by decide) (by decide) member

theorem toDigits_injective {n m : Nat} (same : Nat.toDigits 10 n = Nat.toDigits 10 m) : n = m := by
  have number := congrArg (Nat.ofDigitChars 10 · 0) same
  simpa only [Nat.ofDigitChars_ten_toDigits] using number

theorem head?_toDigits_ne {n : Nat} {c : Char} (other : c.isDigit = false) :
    (Nat.toDigits 10 n).head? ≠ some c := by
  intro first
  have digit := isDigit_of_mem_toDigits (List.mem_of_mem_head? first)
  rw [other] at digit
  contradiction

theorem head?_numeral (n : Int) : (numeral n).head? = some '-' ↔ n < 0 := by
  unfold numeral
  split
  · next positive =>
    exact ⟨fun minus => absurd minus (head?_toDigits_ne (by decide)), fun negative => by omega⟩
  · next negative => exact ⟨fun _ => by omega, fun _ => rfl⟩

theorem numeral_injective : Function.Injective numeral := by
  intro n m same
  have sign : n < 0 ↔ m < 0 := by rw [← head?_numeral, ← head?_numeral, same]
  unfold numeral at same
  by_cases negative : n < 0
  · have negative' := sign.1 negative
    rw [if_neg (by omega), if_neg (by omega)] at same
    have := toDigits_injective (List.cons.inj same).2
    omega
  · have := mt sign.2 negative
    rw [if_pos (by omega), if_pos (by omega)] at same
    have := toDigits_injective same
    omega

theorem isWordChar_of_mem_numeral {n : Int} : ∀ c ∈ numeral n, isWordChar c = true := by
  intro c member
  unfold numeral at member
  split at member
  · exact isWordChar_of_isDigit (isDigit_of_mem_toDigits member)
  · rcases List.mem_cons.1 member with rfl | digit
    · decide
    · exact isWordChar_of_isDigit (isDigit_of_mem_toDigits digit)

theorem exists_getLast?_toDigits (n : Nat) :
    ∃ c, (Nat.toDigits 10 n).getLast? = some c ∧ c.isDigit = true := by
  have some' := List.getLast?_eq_some_getLast (Nat.toDigits_ne_nil (n := n) (b := 10))
  exact ⟨_, some', isDigit_of_mem_toDigits (List.getLast_mem _)⟩

theorem exists_getLast?_numeral (n : Int) :
    ∃ c, (numeral n).getLast? = some c ∧ c.isDigit = true := by
  unfold numeral
  split
  · exact exists_getLast?_toDigits _
  · obtain ⟨c, last, digit⟩ := exists_getLast?_toDigits (-n).toNat
    exact ⟨c, by rw [List.getLast?_cons, last]; rfl, digit⟩

theorem head?_numeral_ne {n : Int} {c : Char} (other : c.isDigit = false) (plus : c ≠ '-') :
    (numeral n).head? ≠ some c := by
  unfold numeral
  split
  · exact head?_toDigits_ne other
  · exact fun minus => plus (Option.some.inj minus).symm

namespace Var

theorem exists_toList_name (v : Var) :
    ∃ letter ∈ ['f', 'v'], ∃ n, v.name.toList = letter :: Nat.toDigits 10 n := by
  cases v with
  | field id => exact ⟨'f', by decide, id + 1, by rw [name_field, numbered, String.toList_ofList]⟩
  | localVar id =>
    exact ⟨'v', by decide, id + 1, by rw [name_localVar, numbered, String.toList_ofList]⟩

theorem name_injective : Function.Injective name := by
  intro v v' same
  cases v with
  | field id =>
    cases v' with
    | field id' =>
      rw [name_field, name_field, numbered_inj] at same
      rw [Nat.succ.inj same.2]
    | localVar id' =>
      rw [name_field, name_localVar, numbered_inj] at same
      exact absurd same.1 (by decide)
  | localVar id =>
    cases v' with
    | field id' =>
      rw [name_field, name_localVar, numbered_inj] at same
      exact absurd same.1 (by decide)
    | localVar id' =>
      rw [name_localVar, name_localVar, numbered_inj] at same
      rw [Nat.succ.inj same.2]

end Var

/-- What a word is the text of: a constant that is written without quotes and without a cast, or a
variable. -/
inductive Word : List Char → Tree → Prop where
  | boolean (b : Bool) :
      Word (Value.literal (.boolean b) .void).toList (.constant (.boolean b) .void)
  | int (n : Int32) : Word (numeral n.toInt) (.constant (.int n) .void)
  | long (n : Int64) : Word (numeral n.toInt ++ ['L']) (.constant (.long n) .void)
  | float {bits : UInt32} : bits ∈ Random.floatPatterns →
      Word ((Decimal.binary32.text bits.toNat).toList ++ ['f']) (.constant (.float bits) .void)
  | double {bits : UInt64} : bits ∈ Random.doublePatterns →
      Word ((Decimal.binary64.text bits.toNat).toList ++ ['d']) (.constant (.double bits) .void)
  | read (v : Var) : Word v.name.toList (.read v)

namespace Word

def sortOf (w : List Char) : Char :=
  match w.getLast? with
  | none => ' '
  | some c => if c.isDigit then (if w.head? ∈ [some 'f', some 'v'] then 'v' else '0') else c

def sort : Tree → Char
  | .constant (.boolean _) _ => 'e'
  | .constant (.int _) _ => '0'
  | .constant (.long _) _ => 'L'
  | .constant (.float _) _ => 'f'
  | .constant (.double _) _ => 'd'
  | .read _ => 'v'
  | _ => ' '

variable {w : List Char} {c : Tree}

theorem sortOf_append {d : Char} (other : d.isDigit = false) : sortOf (w ++ [d]) = d := by
  simp [sortOf, other]

theorem sortOf_of_isDigit {d : Char} (last : w.getLast? = some d) (digit : d.isDigit = true) :
    sortOf w = if w.head? ∈ [some 'f', some 'v'] then 'v' else '0' := by
  simp [sortOf, last, digit]

theorem sort_eq (word : Word w c) : sortOf w = sort c := by
  cases word with
  | boolean b => cases b <;> decide
  | int n =>
    obtain ⟨c, last, digit⟩ := exists_getLast?_numeral n.toInt
    rw [sortOf_of_isDigit last digit, if_neg]
    · rfl
    · simp [head?_numeral_ne]
  | long | float | double => exact sortOf_append (by decide)
  | read v =>
    obtain ⟨letter, isLetter, n, same⟩ := v.exists_toList_name
    obtain ⟨c, last, digit⟩ := exists_getLast?_toDigits n
    have last : v.name.toList.getLast? = some c := by
      rw [same, List.getLast?_cons, last]
      rfl
    rw [sortOf_of_isDigit last digit, same, if_pos]
    · rfl
    · simpa using isLetter

theorem sort_mem (word : Word w c) : sortOf w ∈ ['e', '0', 'L', 'f', 'd', 'v'] := by
  rw [word.sort_eq]
  cases word <;> simp [sort]

theorem allFloats : ∀ bits ∈ Random.floatPatterns, ∀ c ∈ (Decimal.binary32.text bits.toNat).toList,
    isWordChar c = true := by
  have all : (Random.floatPatterns.all fun bits =>
      (Decimal.binary32.text bits.toNat).toList.all isWordChar) = true := by decide +kernel
  exact fun bits member => List.all_eq_true.1 (List.all_eq_true.1 all bits member)

theorem allDoubles : ∀ bits ∈ Random.doublePatterns,
    ∀ c ∈ (Decimal.binary64.text bits.toNat).toList, isWordChar c = true := by
  have all : (Random.doublePatterns.all fun bits =>
      (Decimal.binary64.text bits.toNat).toList.all isWordChar) = true := by decide +kernel
  exact fun bits member => List.all_eq_true.1 (List.all_eq_true.1 all bits member)

theorem isWord (word : Word w c) : Phrase.IsWord w where
  some' := by
    rintro rfl
    exact absurd word.sort_mem (by decide)
  other := by
    rintro rfl
    exact absurd word.sort_mem (by decide)
  all := by
    have append {w : List Char} {d : Char} (all : ∀ c ∈ w, isWordChar c = true)
        (letter : isWordChar d = true) : ∀ c ∈ w ++ [d], isWordChar c = true := by
      intro c member
      rcases List.mem_append.1 member with old | last
      · exact all c old
      · exact List.mem_singleton.1 last ▸ letter
    cases word with
    | boolean b => cases b <;> exact List.all_eq_true.1 (by decide)
    | int n => exact isWordChar_of_mem_numeral
    | long n => exact append isWordChar_of_mem_numeral (by decide)
    | float member => exact append (allFloats _ member) (by decide)
    | double member => exact append (allDoubles _ member) (by decide)
    | read v =>
      obtain ⟨letter, isLetter, n, same⟩ := v.exists_toList_name
      rw [same]
      have first : ∀ d ∈ ['f', 'v'], isWordChar d = true := List.all_eq_true.1 (by decide)
      exact List.forall_mem_cons.2
        ⟨first letter isLetter, fun c member => isWordChar_of_isDigit (isDigit_of_mem_toDigits member)⟩

theorem functional {w' : List Char} {c' : Tree} (word : Word w c) (word' : Word w' c')
    (same : w = w') : c = c' := by
  have sorts : sort c = sort c' := by rw [← word.sort_eq, ← word'.sort_eq, same]
  cases word with
  | boolean b =>
    cases word' with
    | boolean b' =>
      have : b = b' := by
        revert same
        cases b <;> cases b' <;> decide
      rw [this]
    | _ => simp [sort] at sorts
  | int n =>
    cases word' with
    | int n' => rw [Int32.toInt_inj.1 (numeral_injective same)]
    | _ => simp [sort] at sorts
  | long n =>
    cases word' with
    | long n' => rw [Int64.toInt_inj.1 (numeral_injective (List.append_cancel_right same))]
    | _ => simp [sort] at sorts
  | @float bits member =>
    cases word' with
    | @float bits' member' =>
      have distinct : (Random.floatPatterns.map fun a => Decimal.binary32.text a.toNat).Nodup := by
        decide +kernel
      have texts := String.toList_injective (List.append_cancel_right same)
      rw [List.inj_on_of_nodup_map distinct member member' texts]
    | _ => simp [sort] at sorts
  | @double bits member =>
    cases word' with
    | @double bits' member' =>
      have distinct : (Random.doublePatterns.map fun a => Decimal.binary64.text a.toNat).Nodup := by
        decide +kernel
      have texts := String.toList_injective (List.append_cancel_right same)
      rw [List.inj_on_of_nodup_map distinct member member' texts]
    | _ => simp [sort] at sorts
  | read v =>
    cases word' with
    | read v' => rw [Var.name_injective (String.toList_injective same)]
    | _ => simp [sort] at sorts

end Word
end JavaSmith
