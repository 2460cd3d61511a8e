import JavaSmith.Proofs.Lexis

/-! What a compiler makes of the literal of a value. The text of a literal is cut into tokens, the tokens are
those of one expression, and that denotes the value again: in its own kind, and with every character as
it was. -/
namespace JavaSmith

namespace Lexis

inductive Expression where
  | boolean (b : Bool)
  | number (n : Nat) (isLong : Bool)
  | character (u : UInt16)
  | text (us : List UInt16)
  | negative (operand : Expression)
  | cast (target : Kind) (operand : Expression)
  | group (inner : Expression)

def word (s : String) : List UInt16 := s.toList.map unit

def boolean? (w : List UInt16) : Option Bool :=
  if w = word "true" then some true else if w = word "false" then some false else none

def kind? (w : List UInt16) : Option Kind := Kind.all.find? fun k => word k.keyword == w

def parse : List Token → Option (Expression × List Token)
  | .minus :: ts => (parse ts).map fun (e, rest) => (.negative e, rest)
  | .opening :: .word w :: .closing :: ts =>
    match kind? w, boolean? w with
    | some k, _ => (parse ts).map fun (e, rest) => (.cast k e, rest)
    | none, some b => some (.group (.boolean b), ts)
    | none, none => none
  | .opening :: ts =>
    match parse ts with
    | some (e, .closing :: rest) => some (.group e, rest)
    | _ => none
  | .word w :: ts => (boolean? w).map fun b => (.boolean b, ts)
  | .number n isLong :: ts => some (.number n isLong, ts)
  | .character u :: ts => some (.character u, ts)
  | .text us :: ts => some (.text us, ts)
  | .closing :: _ | [] => none

def expression? (text : String) : Option Expression := do
  let tokens ← tokens? text.toList
  match parse tokens with
  | some (e, []) => some e
  | _ => none

end Lexis

inductive Constant where
  | boolean (b : Bool)
  | byte (n : Int8)
  | short (n : Int16)
  | char (u : UInt16)
  | int (n : Int32)
  | long (n : Int64)
  | text (us : List UInt16)
  deriving DecidableEq

namespace Constant

def toInt? : Constant → Option Int
  | byte n => some n.toInt
  | short n => some n.toInt
  | char u => some u.toNat
  | int n => some n.toInt
  | long n => some n.toInt
  | boolean _ | text _ => none

/-- The number of a numeral with its sign, if its type has it. -/
def numeral? (isLong : Bool) (n : Int) : Option Constant :=
  if isLong then if -2 ^ 63 ≤ n ∧ n < 2 ^ 63 then some (long (.ofInt n)) else none
  else if -2 ^ 31 ≤ n ∧ n < 2 ^ 31 then some (int (.ofInt n)) else none

/-- Narrow integers are negated as `int`. -/
def negated : Constant → Option Constant
  | long n => some (long (-n))
  | c => c.toInt?.map fun n => int (.ofInt (-n))

/-- Conversion of a constant to a kind. Integers keep the bits that there is room for. -/
def castTo? (c : Constant) : Kind → Option Constant
  | .boolean => match c with
    | boolean b => some (boolean b)
    | _ => none
  | .byte => c.toInt?.map fun n => byte (.ofInt n)
  | .short => c.toInt?.map fun n => short (.ofInt n)
  | .char => c.toInt?.map fun n => char (.ofInt n)
  | .int => c.toInt?.map fun n => int (.ofInt n)
  | .long => c.toInt?.map fun n => long (.ofInt n)
  | .float | .double => none

variable {n : Int}

theorem numeral?_int (low : -2 ^ 31 ≤ n) (high : n < 2 ^ 31) :
    numeral? false n = some (int (.ofInt n)) := by
  rw [numeral?, if_neg Bool.false_ne_true, if_pos ⟨low, high⟩]

theorem numeral?_long (low : -2 ^ 63 ≤ n) (high : n < 2 ^ 63) :
    numeral? true n = some (long (.ofInt n)) := by
  rw [numeral?, if_pos rfl, if_pos ⟨low, high⟩]

theorem castTo?_numeral {k : Kind} {c : Int → Constant} (low : -2 ^ 31 ≤ n) (high : n < 2 ^ 31)
    (casts : ∀ d : Constant, d.castTo? k = d.toInt?.map c) :
    (numeral? false n).bind (·.castTo? k) = some (c n) := by
  rw [numeral?_int low high, Option.bind_some, casts, toInt?, Int32.toInt_ofInt_of_le low high,
    Option.map_some]

theorem ofInt_toNat (u : UInt16) : UInt16.ofInt u.toNat = u := by
  have small := u.toNat_lt
  rw [UInt16.ofInt, Int.emod_eq_of_lt (by omega) (by omega), Int.toNat_natCast, UInt16.ofNat_toNat]

end Constant

namespace Lexis

/-- The value of an expression. The least number of a type has no positive counterpart: its numeral has a
value only right behind a minus. -/
def Expression.value? : Expression → Option Constant
  | .boolean b => some (.boolean b)
  | .number n isLong => Constant.numeral? isLong n
  | .negative (.number n isLong) => Constant.numeral? isLong (-n)
  | .negative e => e.value?.bind Constant.negated
  | .character u => some (.char u)
  | .text us => some (.text us)
  | .cast k e => e.value?.bind (·.castTo? k)
  | .group e => e.value?

def constant? (text : String) : Option Constant := do
  let e ← expression? text
  e.value?

/-! ### Expressions of literals -/

variable {tokens rest : List Token} {e : Expression}

theorem kind?_keyword (k : Kind) : kind? (word k.keyword) = some k := by cases k <;> decide

theorem parse_cast (k : Kind) (operand : parse tokens = some (e, rest)) :
    parse (.opening :: .word (word k.keyword) :: .closing :: tokens) = some (.cast k e, rest) := by
  rw [parse, kind?_keyword, operand]
  rfl

theorem parse_group (inner : parse tokens = some (e, .closing :: rest))
    (noName : ∀ w more, tokens ≠ .word w :: .closing :: more) :
    parse (.opening :: tokens) = some (.group e, rest) := by
  rw [parse, inner]
  exact noName

def signed (n : Int) (isLong : Bool) : Expression :=
  if n < 0 then .negative (.number n.natAbs isLong) else .number n.natAbs isLong

theorem parse_signed (n : Int) (isLong : Bool) (rest : List Token) :
    parse (sign n ++ .number n.natAbs isLong :: rest) = some (signed n isLong, rest) := by
  unfold sign signed
  split <;> rfl

theorem value?_signed (n : Int) (isLong : Bool) :
    (signed n isLong).value? = Constant.numeral? isLong n := by
  unfold signed
  split
  · change Constant.numeral? isLong (-n.natAbs) = _
    congr 1
    omega
  · change Constant.numeral? isLong n.natAbs = _
    congr 1
    omega

theorem constant?_of_tokens? {text : String} {cs : List Char} (spelled : text.toList = cs)
    (cut : tokens? cs = some tokens) (parsed : parse tokens = some (e, [])) :
    constant? text = e.value? := by
  have read : expression? text = some e := by
    rw [expression?, spelled, cut]
    change (match parse tokens with
      | some (e, []) => some e
      | _ => none) = _
    rw [parsed]
  rw [constant?, read]
  rfl

theorem constant?_grouped {n : Int} {isLong : Bool} {s : String} (spelled : s.toList = written n isLong) :
    constant? (grouped (n < 0) s) = Constant.numeral? isLong n := by
  by_cases negative : n < 0
  · have text : (grouped (n < 0) s).toList = ['('] ++ (written n isLong ++ [')']) := by
      simp [grouped, negative, spelled]
    have opens : tokenizer.feed .start (['('].flatMap codeUnits) = some ([.opening], .start) := rfl
    have noName : ∀ w more, sign n ++ [.number n.natAbs isLong, .closing] ≠ .word w :: .closing :: more := by
      simp [sign, negative]
    have parsed := parse_group (parse_signed n isLong [.closing]) noName
    rw [constant?_of_tokens? text (tokens?_enclosed (by decide) opens n isLong) parsed]
    exact value?_signed n isLong
  · have text : (grouped (n < 0) s).toList = written n isLong := by
      simp [grouped, negative, spelled]
    rw [constant?_of_tokens? text (tokens?_written n isLong) (parse_signed n isLong [])]
    exact value?_signed n isLong

theorem constant?_castText (k : Kind) {n : Int} {s : String} (spelled : s.toList = numeral n) :
    constant? (castText k.keyword s) = (Constant.numeral? false n).bind (·.castTo? k) := by
  have text : (castText k.keyword s).toList =
      ("((" ++ k.keyword ++ ") ").toList ++ (written n false ++ [')']) := by
    simp [castText, written, spelled]
  have plain : '\\' ∉ ("((" ++ k.keyword ++ ") ").toList := by cases k <;> decide
  have opens : tokenizer.feed .start (("((" ++ k.keyword ++ ") ").toList.flatMap codeUnits) =
      some ([.opening, .opening, .word (word k.keyword), .closing], .start) := by
    cases k <;> rfl
  have parsed := parse_group (parse_cast k (parse_signed n false [.closing])) (by simp)
  rw [constant?_of_tokens? text (tokens?_enclosed plain opens n false) parsed]
  change (signed n false).value?.bind _ = _
  rw [value?_signed]

theorem constant?_stringText (s : String) :
    constant? (stringText s) = some (.text (s.toList.flatMap codeUnits)) := by
  exact constant?_of_tokens? String.toList_ofList (tokens?_text s.toList) rfl

theorem constant?_charText (u : UInt16) : constant? (charText u) = some (.char u) := by
  unfold charText
  split
  · next printable =>
    have number := toNat_ofNat_printable printable
    have own : unit (Char.ofNat u.toNat) = u := by rw [unit, number, UInt16.ofNat_toNat]
    have single : codeUnits (Char.ofNat u.toNat) = [unit (Char.ofNat u.toNat)] :=
      codeUnits_of_lt (by rw [number]; exact u.toNat_lt)
    rw [constant?_of_tokens? String.toList_ofList (tokens?_character single) rfl, own]
    rfl
  · have low : -2 ^ 31 ≤ (u.toNat : Int) := by omega
    have high : (u.toNat : Int) < 2 ^ 31 := by
      have := u.toNat_lt
      omega
    change constant? (castText Kind.char.keyword _) = _
    rw [constant?_castText .char (toList_toString_nat _),
      Constant.castTo?_numeral low high fun _ => rfl, Constant.ofInt_toNat]

end Lexis

namespace Value

open Constant Lexis

/-- The constant that the value is; of texts, their units. -/
def meaning? : Value → Option Constant
  | boolean b => some (.boolean b)
  | byte n => some (.byte n)
  | short n => some (.short n)
  | char u => some (.char u)
  | int n => some (.int n)
  | long n => some (.long n)
  | string s => some (.text (s.toList.flatMap codeUnits))
  | float _ | double _ | null => none

theorem meaning?_inj {v v' : Value} {c : Constant} (h : v.meaning? = some c) (h' : v'.meaning? = some c) :
    v = v' := by
  cases v with
  | string s =>
    cases v' with
    | string s' =>
      have units : s.toList.flatMap codeUnits = s'.toList.flatMap codeUnits :=
        Constant.text.inj (Option.some.inj (h.trans h'.symm))
      rw [String.toList_injective (flatMap_codeUnits_injective units)]
    | _ =>
      cases h
      simp [meaning?] at h'
  | float | double | null => contradiction
  | _ =>
    cases h
    cases v' <;> simp_all [meaning?]

/-- Reading the literal gives the value again. -/
theorem constant?_literal {v : Value} {c : Constant} (meant : v.meaning? = some c) (t : Ty) :
    constant? (v.literal t) = some c := by
  cases v with
  | boolean b =>
    cases meant
    have yes : constant? "true" = some (.boolean true) := by decide
    have no : constant? "false" = some (.boolean false) := by decide
    cases b with
    | true => exact yes
    | false => exact no
  | byte n =>
    cases meant
    change constant? (castText Kind.byte.keyword _) = _
    have low := n.le_toInt
    have high := n.toInt_lt
    rw [constant?_castText .byte (toList_toString_int _), castTo?_numeral (by omega) (by omega) fun _ => rfl,
      Int8.ofInt_toInt]
  | short n =>
    cases meant
    change constant? (castText Kind.short.keyword _) = _
    have low := n.le_toInt
    have high := n.toInt_lt
    rw [constant?_castText .short (toList_toString_int _), castTo?_numeral (by omega) (by omega) fun _ => rfl,
      Int16.ofInt_toInt]
  | char u =>
    cases meant
    exact constant?_charText u
  | int n =>
    cases meant
    have spelled : (toString n.toInt).toList = written n.toInt false := by
      rw [toList_toString_int, written, if_neg Bool.false_ne_true, List.append_nil]
    -- Parentheses go by the word, the sign of the numeral by its number.
    have negative : n < 0 ↔ n.toInt < 0 := Int32.lt_iff_toInt_lt
    rw [literal, decide_eq_decide.2 negative, constant?_grouped spelled,
      numeral?_int n.le_toInt n.toInt_lt, Int32.ofInt_toInt]
  | long n =>
    cases meant
    have spelled : (toString n.toInt ++ "L").toList = written n.toInt true := by
      rw [String.toList_append, toList_toString_int]
      rfl
    have negative : n < 0 ↔ n.toInt < 0 := Int64.lt_iff_toInt_lt
    rw [literal, decide_eq_decide.2 negative, constant?_grouped spelled,
      numeral?_long n.le_toInt n.toInt_lt, Int64.ofInt_toInt]
  | string s =>
    cases meant
    exact constant?_stringText s
  | float | double | null => contradiction

/-- Literals of truth values, whole numbers, characters and texts are read back as these values, whatever
type they are meant as. So no two of the values have a literal in common. -/
theorem literal_read_back {v : Value} {c : Constant} (meant : v.meaning? = some c) (t : Ty) :
    constant? (v.literal t) = some c ∧
      ∀ (v' : Value) (t' : Ty), v'.meaning?.isSome → v'.literal t' = v.literal t → v' = v := by
  have read := constant?_literal meant t
  refine ⟨read, fun v' t' meant' same => ?_⟩
  obtain ⟨c', meant'⟩ := Option.isSome_iff_exists.1 meant'
  have read' := constant?_literal meant' t'
  rw [same, read] at read'
  exact meaning?_inj meant' (read' ▸ meant)

/-- A text that looks like an escape of the quote behind it is not one. -/
theorem quote_escape_read_back :
    (string "\\u0022").meaning? = some (.text (word "\\u0022")) ∧
      constant? ((string "\\u0022").literal .void) = some (.text (word "\\u0022")) :=
  have meant : (string "\\u0022").meaning? = some (.text (word "\\u0022")) := by decide
  ⟨meant, (literal_read_back meant .void).1⟩

example : constant? "\"\\u0022" = some (.text []) := by decide

example : constant? "2147483648" = none := by decide

example : constant? "(-2147483648)" = some (.int (-2147483648)) := by decide

end Value
end JavaSmith
