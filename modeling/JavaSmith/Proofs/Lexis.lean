import JavaSmith.Proofs.CodeUnits
import JavaSmith.Proofs.Words

/-! How a compiler takes a text apart. First Unicode escapes are replaced: a backslash begins one if an even
number of backslashes stands before it and a `u` behind it. What is left is cut into tokens, each as long
as it can be. Of the tokens there are those that literals of whole numbers, characters, truth values and
texts consist of; on all others, and on octal escapes, the reader gives up. -/
namespace JavaSmith

/-- A machine that reads one thing after another and may put out some for each; it may also refuse to go
on. At the end it puts out what it holds back. -/
structure Machine (σ α β : Type) where
  step : σ → α → Option (List β × σ)
  finish : σ → Option (List β)

namespace Machine

variable {σ α β : Type} (m : Machine σ α β)

def feed : σ → List α → Option (List β × σ)
  | s, [] => some ([], s)
  | s, a :: as => do
    let (out, s) ← m.step s a
    let (more, s) ← feed s as
    return (out ++ more, s)

def run (s : σ) (as : List α) : Option (List β) := do
  let (out, s) ← m.feed s as
  let rest ← m.finish s
  return out ++ rest

variable {m} {s s' s'' : σ} {a : α} {as as' : List α} {out out' : List β}

theorem feed_cons (first : m.step s a = some (out, s')) (later : m.feed s' as = some (out', s'')) :
    m.feed s (a :: as) = some (out ++ out', s'') := by
  rw [feed, first]
  change (do
    let (more, s) ← m.feed s' as
    return (out ++ more, s)) = _
  rw [later]
  rfl

theorem feed_singleton (h : m.step s a = some (out, s')) : m.feed s [a] = some (out, s') := by
  have nothing : m.feed s' [] = some ([], s') := rfl
  simpa using feed_cons h nothing

theorem feed_append (h : m.feed s as = some (out, s')) (h' : m.feed s' as' = some (out', s'')) :
    m.feed s (as ++ as') = some (out ++ out', s'') := by
  induction as generalizing s out with
  | nil =>
    cases h
    exact h'
  | cons a as ih =>
    rw [feed] at h
    obtain ⟨⟨first, s₁⟩, stepped, h⟩ := Option.bind_eq_some_iff.1 h
    obtain ⟨⟨more, s₂⟩, fed, h⟩ := Option.bind_eq_some_iff.1 h
    cases h
    rw [List.cons_append, List.append_assoc]
    exact feed_cons stepped (ih fed)

theorem run_of_feed (h : m.feed s as = some (out, s')) (ends : m.finish s' = some out') :
    m.run s as = some (out ++ out') := by
  rw [run, h]
  change (do
    let rest ← m.finish s'
    return out ++ rest) = _
  rw [ends]
  rfl

end Machine

namespace Lexis

/-! ### Unicode escapes -/

inductive Escape where
  /-- An even number of backslashes stands before. -/
  | plain
  | backslash
  /-- Behind a backslash and one `u` or more. -/
  | marked
  | digits (count value : Nat)

def hexDigit? (u : UInt16) : Option Nat :=
  "0123456789abcdef".toList.findIdx? (unit · == u) <|>
    ("ABCDEF".toList.findIdx? (unit · == u)).map (· + 10)

def Escape.step : Escape → UInt16 → Option (List UInt16 × Escape)
  | plain, u => if u = unit '\\' then some ([], backslash) else some ([u], plain)
  | backslash, u => if u = unit 'u' then some ([], marked) else some ([unit '\\', u], plain)
  | marked, u =>
    if u = unit 'u' then some ([], marked) else (hexDigit? u).map fun d => ([], digits 1 d)
  | digits count value, u => (hexDigit? u).map fun d =>
    if count = 3 then ([UInt16.ofNat (16 * value + d)], plain) else ([], digits (count + 1) (16 * value + d))

/-- Replaces Unicode escapes. A character that comes from one is not looked at again. -/
def translation : Machine Escape UInt16 UInt16 where
  step := Escape.step
  finish
    | .plain => some []
    | .backslash => some [unit '\\']
    | .marked | .digits _ _ => none

/-! ### Tokens -/

inductive Token where
  | opening | closing | minus
  | word (w : List UInt16)
  /-- A decimal numeral, of type `long` if it ends in `L`. -/
  | number (n : Nat) (isLong : Bool)
  | character (u : UInt16)
  | text (us : List UInt16)
  deriving DecidableEq

inductive Partial where
  | start
  | minus
  | word (w : List UInt16)
  | zero
  /-- The value of the digits, the first of which is not zero. -/
  | number (n : Nat)
  | apostrophe | apostropheEscape
  /-- The unit of a character whose second quote is to come. -/
  | character (u : UInt16)
  | text (us : List UInt16)
  | textEscape (us : List UInt16)
  /-- Two quotes, which a third would make the beginning of a text block. -/
  | emptyText
  deriving DecidableEq

def isDigit (u : UInt16) : Bool := unit '0' ≤ u && u ≤ unit '9'

def isLetter (u : UInt16) : Bool := (unit 'a' ≤ u && u ≤ unit 'z') || (unit 'A' ≤ u && u ≤ unit 'Z')

def digitValue (u : UInt16) : Nat := u.toNat - (unit '0').toNat

def isLineEnd (u : UInt16) : Bool := u == unit '\n' || u == unit '\r'

def isBlank (u : UInt16) : Bool := u == unit ' ' || u == unit '\t' || u == unit '\x0c' || isLineEnd u

def escapeValue? (u : UInt16) : Option UInt16 :=
  ([('b', '\x08'), ('s', ' '), ('t', '\t'), ('n', '\n'), ('f', '\x0c'), ('r', '\r'), ('"', '"'),
    (quoteMark, quoteMark), ('\\', '\\')].find? fun (c, _) => unit c == u).map fun (_, d) => unit d

namespace Partial

def first (u : UInt16) : Option (List Token × Partial) :=
  if isBlank u then some ([], start)
  else if u = unit '(' then some ([.opening], start)
  else if u = unit ')' then some ([.closing], start)
  else if u = unit '-' then some ([], minus)
  else if u = unit quoteMark then some ([], apostrophe)
  else if u = unit '"' then some ([], text [])
  else if u = unit '0' then some ([], zero)
  else if isDigit u then some ([], number (digitValue u))
  else if isLetter u then some ([], word [u])
  else none

def next (t : Token) (u : UInt16) : Option (List Token × Partial) :=
  (first u).map fun (out, s) => (t :: out, s)

/-- Behind a numeral: its suffix, or the next token. A letter that is no suffix makes it a numeral of
another sort. -/
def behindNumeral (n : Nat) (u : UInt16) : Option (List Token × Partial) :=
  if u = unit 'L' ∨ u = unit 'l' then some ([.number n true], start)
  else if isLetter u then none
  else next (.number n false) u

def step : Partial → UInt16 → Option (List Token × Partial)
  | start, u => first u
  | minus, u =>
    if u = unit '-' ∨ u = unit '=' ∨ u = unit '>' then none else next .minus u
  | word w, u => if isLetter u || isDigit u then some ([], word (w ++ [u])) else next (.word w) u
  | zero, u => if isDigit u then none else behindNumeral 0 u
  | number n, u =>
    if isDigit u then some ([], number (10 * n + digitValue u)) else behindNumeral n u
  | apostrophe, u =>
    if u = unit '\\' then some ([], apostropheEscape)
    else if u = unit quoteMark ∨ isLineEnd u then none
    else some ([], character u)
  | apostropheEscape, u => (escapeValue? u).map fun v => ([], character v)
  | character v, u => if u = unit quoteMark then some ([.character v], start) else none
  | text us, u =>
    if u = unit '"' then some (if us = [] then ([], emptyText) else ([.text us], start))
    else if u = unit '\\' then some ([], textEscape us)
    else if isLineEnd u then none
    else some ([], text (us ++ [u]))
  | textEscape us, u => (escapeValue? u).map fun v => ([], text (us ++ [v]))
  | emptyText, u => if u = unit '"' then none else next (.text []) u

def finish : Partial → Option (List Token)
  | start => some []
  | minus => some [.minus]
  | word w => some [.word w]
  | zero => some [.number 0 false]
  | number n => some [.number n false]
  | emptyText => some [.text []]
  | _ => none

end Partial

def tokenizer : Machine Partial UInt16 Token := ⟨Partial.step, Partial.finish⟩

def tokens? (text : List Char) : Option (List Token) := do
  let units ← translation.run .plain (text.flatMap codeUnits)
  tokenizer.run .start units

/-! ### Literals in tokens -/

variable {us us' : List UInt16} {quote c : Char} {text : List Char}

/-- Between escapes, the units are what they were. -/
def Kept (us : List UInt16) : Prop := translation.feed .plain us = some (us, .plain)

theorem Kept.append (kept : Kept us) (kept' : Kept us') : Kept (us ++ us') :=
  Machine.feed_append kept kept'

theorem kept_of_forall_ne (plain : ∀ u ∈ us, u ≠ unit '\\') : Kept us := by
  induction us with
  | nil => rfl
  | cons u us ih =>
    have step : translation.step .plain u = some ([u], .plain) := if_neg (plain u List.mem_cons_self)
    exact Machine.feed_cons step (ih fun v member => plain v (List.mem_cons_of_mem _ member))

theorem kept_backslash {u : UInt16} (other : u ≠ unit 'u') : Kept [unit '\\', u] := by
  have first : translation.step .plain (unit '\\') = some ([], .backslash) := rfl
  have second : translation.step .backslash u = some ([unit '\\', u], .plain) := if_neg other
  exact Machine.feed_cons first (Machine.feed_singleton second)

theorem Kept.flatMap {α : Type} {f : α → List UInt16} (kept : ∀ a, Kept (f a)) (as : List α) :
    Kept (as.flatMap f) := by
  induction as with
  | nil => rfl
  | cons a as ih => exact (kept a).append ih

theorem kept_codeUnits (plain : '\\' ∉ text) : Kept (text.flatMap codeUnits) := by
  refine kept_of_forall_ne fun u member same => plain ?_
  obtain ⟨c, inside, unitOf⟩ := List.mem_flatMap.1 member
  exact eq_of_unit_mem (by decide) (same ▸ unitOf) ▸ inside

theorem units_escaped (mark : quote = '"' ∨ quote = quoteMark) (c : Char) :
    (∃ u, (escaped quote c).flatMap codeUnits = [unit '\\', u] ∧ u ≠ unit 'u' ∧
      codeUnits c = [unit c] ∧ escapeValue? u = some (unit c)) ∨
    (escaped quote c).flatMap codeUnits = codeUnits c ∧
      ∀ u ∈ codeUnits c, u ≠ unit '\\' ∧ u ≠ unit quote ∧ isLineEnd u = false := by
  by_cases special : c ∈ ['\\', '\n', '\t', '\r']
  · simp only [List.mem_cons, List.not_mem_nil, or_false] at special
    rcases special with rfl | rfl | rfl | rfl
    · exact .inl ⟨unit '\\', rfl, by decide, rfl, rfl⟩
    · exact .inl ⟨unit 'n', rfl, by decide, rfl, rfl⟩
    · exact .inl ⟨unit 't', rfl, by decide, rfl, rfl⟩
    · exact .inl ⟨unit 'r', rfl, by decide, rfl, rfl⟩
  simp only [List.mem_cons, List.not_mem_nil, or_false, not_or] at special
  obtain ⟨backslash, newline, tab, return'⟩ := special
  by_cases same : c = quote
  · subst c
    rcases mark with rfl | rfl
    · exact .inl ⟨unit '"', rfl, by decide, rfl, rfl⟩
    · exact .inl ⟨unit quoteMark, rfl, by decide, rfl, rfl⟩
  · have ascii : quote.toNat < 0xd800 := by
      rcases mark with rfl | rfl <;> decide
    refine .inr ⟨by simp [escaped, backslash, newline, tab, return', same], fun u member => ?_⟩
    have other {d : Char} (small : d.toNat < 0xd800) (differs : c ≠ d) : u ≠ unit d := fun unitOf =>
      differs (eq_of_unit_mem small (unitOf ▸ member))
    refine ⟨other (by decide) backslash, other ascii same, ?_⟩
    unfold isLineEnd
    simp [other (by decide) newline, other (by decide) return']

theorem kept_escaped (mark : quote = '"' ∨ quote = quoteMark) (c : Char) :
    Kept ((escaped quote c).flatMap codeUnits) := by
  rcases units_escaped mark c with ⟨u, units, other, _⟩ | ⟨units, plain⟩
  · exact units ▸ kept_backslash other
  · exact units ▸ kept_of_forall_ne fun u member => (plain u member).1

/-- Within quotes the characters of a text are found again. -/
theorem feed_textUnits (us : List UInt16) (c : Char) :
    tokenizer.feed (.text us) ((escaped '"' c).flatMap codeUnits) =
      some ([], .text (us ++ codeUnits c)) := by
  rcases units_escaped (.inl rfl) c with ⟨u, units, _, single, value⟩ | ⟨units, plain⟩
  · have first : tokenizer.step (.text us) (unit '\\') = some ([], .textEscape us) := rfl
    have second : tokenizer.step (.textEscape us) u = some ([], .text (us ++ [unit c])) := by
      change (escapeValue? u).map _ = _
      rw [value]
      rfl
    rw [units, single]
    exact Machine.feed_cons first (Machine.feed_singleton second)
  · rw [units]
    generalize codeUnits c = more at plain
    induction more generalizing us with
    | nil => simp [Machine.feed]
    | cons u more ih =>
      obtain ⟨backslash, mark, lineEnd⟩ := plain u List.mem_cons_self
      have step : tokenizer.step (.text us) u = some ([], .text (us ++ [u])) := by
        change Partial.step (.text us) u = _
        simp [Partial.step, backslash, mark, lineEnd]
      have later := ih (us ++ [u]) fun v member => plain v (List.mem_cons_of_mem _ member)
      rw [List.append_assoc, List.singleton_append] at later
      exact Machine.feed_cons step later

theorem feed_text (us : List UInt16) (cs : List Char) :
    tokenizer.feed (.text us) ((cs.flatMap (escaped '"')).flatMap codeUnits) =
      some ([], .text (us ++ cs.flatMap codeUnits)) := by
  induction cs generalizing us with
  | nil => simp [Machine.feed]
  | cons c cs ih =>
    have later := Machine.feed_append (feed_textUnits us c) (ih (us ++ codeUnits c))
    simpa [List.flatMap_append, List.append_assoc] using later

theorem run_of_feed_start {tokens : List Token} (fed : tokenizer.feed .start us = some (tokens, .start)) :
    tokenizer.run .start us = some tokens := by
  have ends : tokenizer.finish .start = some [] := rfl
  rw [Machine.run_of_feed fed ends, List.append_nil]

/-- A text in quotes is one token. -/
theorem run_text (cs : List Char) :
    tokenizer.run .start (('"' :: cs.flatMap (escaped '"') ++ ['"']).flatMap codeUnits) =
      some [.text (cs.flatMap codeUnits)] := by
  have opens : tokenizer.step .start (unit '"') = some ([], .text []) := rfl
  have units : (('"' :: cs.flatMap (escaped '"') ++ ['"']).flatMap codeUnits) =
      unit '"' :: ((cs.flatMap (escaped '"')).flatMap codeUnits ++ [unit '"']) := by
    rw [List.flatMap_append, List.flatMap_cons]
    rfl
  rw [units]
  -- Two quotes may begin a text block, so an empty text ends only with the input.
  by_cases empty : cs.flatMap codeUnits = []
  · have closes : tokenizer.step (.text ([] ++ cs.flatMap codeUnits)) (unit '"') =
        some ([], .emptyText) := by
      rw [empty]
      rfl
    have fed :=
      Machine.feed_cons opens (Machine.feed_append (feed_text [] cs) (Machine.feed_singleton closes))
    have ends : tokenizer.finish .emptyText = some [.text []] := rfl
    rw [Machine.run_of_feed fed ends, empty]
    rfl
  · have closes : tokenizer.step (.text ([] ++ cs.flatMap codeUnits)) (unit '"') =
        some ([.text (cs.flatMap codeUnits)], .start) := by
      change some (if _ then _ else _) = _
      rw [List.nil_append, if_neg empty]
    exact run_of_feed_start
      (Machine.feed_cons opens (Machine.feed_append (feed_text [] cs) (Machine.feed_singleton closes)))

theorem run_character (single : codeUnits c = [unit c]) :
    tokenizer.run .start ((quoteMark :: escaped quoteMark c ++ [quoteMark]).flatMap codeUnits) =
      some [.character (unit c)] := by
  have opens : tokenizer.step .start (unit quoteMark) = some ([], .apostrophe) := rfl
  have closes : tokenizer.step (.character (unit c)) (unit quoteMark) =
      some ([.character (unit c)], .start) := rfl
  have units : ((quoteMark :: escaped quoteMark c ++ [quoteMark]).flatMap codeUnits) =
      unit quoteMark :: ((escaped quoteMark c).flatMap codeUnits ++ [unit quoteMark]) := by
    rw [List.flatMap_append, List.flatMap_cons]
    rfl
  have inside : tokenizer.feed .apostrophe ((escaped quoteMark c).flatMap codeUnits) =
      some ([], .character (unit c)) := by
    rcases units_escaped (.inr rfl) c with ⟨u, units, _, _, value⟩ | ⟨units, plain⟩
    · have first : tokenizer.step .apostrophe (unit '\\') = some ([], .apostropheEscape) := rfl
      have second : tokenizer.step .apostropheEscape u = some ([], .character (unit c)) := by
        change (escapeValue? u).map _ = _
        rw [value]
        rfl
      rw [units]
      exact Machine.feed_cons first (Machine.feed_singleton second)
    · rw [units, single]
      obtain ⟨backslash, mark, lineEnd⟩ := plain (unit c) (single ▸ List.mem_singleton_self _)
      refine Machine.feed_singleton ?_
      change Partial.step .apostrophe (unit c) = _
      simp [Partial.step, backslash, mark, lineEnd]
  rw [units]
  exact run_of_feed_start
    (Machine.feed_cons opens (Machine.feed_append inside (Machine.feed_singleton closes)))

/-! ### Numerals in tokens -/

/-- Behind the digits of the number. Only zero begins with a zero. -/
def Partial.behindDigits (n : Nat) : Partial := if n = 0 then .zero else .number n

def sign (n : Int) : List Token := if n < 0 then [.minus] else []

def written (n : Int) (isLong : Bool) : List Char := numeral n ++ if isLong then ['L'] else []

theorem digit_facts : ∀ d < 10, codeUnits (Nat.digitChar d) = [unit (Nat.digitChar d)] ∧
    isDigit (unit (Nat.digitChar d)) = true ∧ digitValue (unit (Nat.digitChar d)) = d := by
  decide

theorem feed_digits {s : Partial} {out : List Token}
    (begins : ∀ d < 10, tokenizer.step s (unit (Nat.digitChar d)) = some (out, .behindDigits d)) (n : Nat) :
    tokenizer.feed s ((Nat.toDigits 10 n).flatMap codeUnits) = some (out, .behindDigits n) := by
  induction n using Nat.strongRecOn with
  | ind n ih =>
    by_cases single : n < 10
    · rw [Nat.toDigits_of_lt_base single, List.flatMap_singleton, (digit_facts n single).1]
      exact Machine.feed_singleton (begins n single)
    · -- The last digit stands behind those of `n / 10`, which do not begin with a zero.
      obtain ⟨units, digit, value⟩ := digit_facts (n % 10) (Nat.mod_lt _ (by decide))
      have positive : n / 10 ≠ 0 := by omega
      have last : tokenizer.step (.behindDigits (n / 10)) (unit (Nat.digitChar (n % 10))) =
          some ([], .behindDigits n) := by
        rw [Partial.behindDigits, if_neg positive, Partial.behindDigits, if_neg (by omega)]
        change (if _ then _ else _) = _
        rw [if_pos digit, value, Nat.div_add_mod]
      rw [Nat.toDigits_of_base_le (by decide) (by omega), List.flatMap_append,
        List.flatMap_singleton, units]
      simpa using Machine.feed_append (ih (n / 10) (by omega)) (Machine.feed_singleton last)

theorem feed_numeral (n : Int) :
    tokenizer.feed .start ((numeral n).flatMap codeUnits) =
      some (sign n, .behindDigits n.natAbs) := by
  have atStart : ∀ d < 10,
      tokenizer.step .start (unit (Nat.digitChar d)) = some ([], .behindDigits d) := by
    decide
  have behindMinus : ∀ d < 10,
      tokenizer.step .minus (unit (Nat.digitChar d)) = some ([.minus], .behindDigits d) := by
    decide
  by_cases negative : n < 0
  · have minus : tokenizer.step .start (unit '-') = some ([], .minus) := rfl
    have magnitude : (-n).toNat = n.natAbs := by omega
    rw [numeral, if_neg (by omega), sign, if_pos negative, magnitude, List.flatMap_cons]
    exact Machine.feed_cons minus (feed_digits behindMinus _)
  · have magnitude : n.toNat = n.natAbs := by omega
    rw [numeral, if_pos (by omega), sign, if_neg negative, magnitude]
    exact feed_digits atStart _

theorem step_behindDigits {u : UInt16} (other : isDigit u = false) (n : Nat) :
    tokenizer.step (.behindDigits n) u = Partial.behindNumeral n u := by
  have next : (if isDigit u then none else Partial.behindNumeral n u) = Partial.behindNumeral n u :=
    if_neg (by simp [other])
  by_cases zero : n = 0
  · subst n
    exact next
  · rw [Partial.behindDigits, if_neg zero]
    exact if_neg (by simp [other])

theorem finish_behindDigits (n : Nat) :
    tokenizer.finish (.behindDigits n) = some [.number n false] := by
  by_cases zero : n = 0
  · subst n
    rfl
  · rw [Partial.behindDigits, if_neg zero]
    rfl

theorem feed_long (n : Int) :
    tokenizer.feed .start ((written n true).flatMap codeUnits) =
      some (sign n ++ [.number n.natAbs true], .start) := by
  rw [written, List.flatMap_append]
  exact Machine.feed_append (feed_numeral n) (Machine.feed_singleton (step_behindDigits rfl _))

theorem run_written (n : Int) (isLong : Bool) :
    tokenizer.run .start ((written n isLong).flatMap codeUnits) =
      some (sign n ++ [.number n.natAbs isLong]) := by
  cases isLong with
  | true => exact run_of_feed_start (feed_long n)
  | false =>
    have fed := feed_numeral n
    rw [← List.append_nil (numeral n)] at fed
    exact Machine.run_of_feed fed (finish_behindDigits _)

theorem feed_written_closing (n : Int) (isLong : Bool) :
    tokenizer.feed .start ((written n isLong ++ [')']).flatMap codeUnits) =
      some (sign n ++ [.number n.natAbs isLong, .closing], .start) := by
  have closing : [')'].flatMap codeUnits = [unit ')'] := rfl
  rw [List.flatMap_append, closing]
  cases isLong with
  | true =>
    have closes : tokenizer.step .start (unit ')') = some ([.closing], .start) := rfl
    simpa using Machine.feed_append (feed_long n) (Machine.feed_singleton closes)
  | false =>
    rw [written, if_neg Bool.false_ne_true, List.append_nil]
    exact Machine.feed_append (feed_numeral n) (Machine.feed_singleton (step_behindDigits rfl _))

theorem backslash_notMem_written (n : Int) (isLong : Bool) : '\\' ∉ written n isLong := by
  have digits (n : Nat) : '\\' ∉ Nat.toDigits 10 n := fun member =>
    absurd (isDigit_of_mem_toDigits member) (by decide)
  have letter : '\\' ∉ if isLong then ['L'] else [] := by cases isLong <;> decide
  rw [written, List.mem_append, not_or, numeral]
  refine ⟨?_, letter⟩
  split
  · exact digits _
  · exact List.not_mem_cons_of_ne_of_not_mem (by decide) (digits _)

/-! ### Tokens of literals -/

variable {before : List Char} {tokens : List Token}

theorem tokens?_of_kept (kept : Kept (text.flatMap codeUnits))
    (cut : tokenizer.run .start (text.flatMap codeUnits) = some tokens) : tokens? text = some tokens := by
  have same : translation.run .plain (text.flatMap codeUnits) = some (text.flatMap codeUnits) := by
    have ends : translation.finish .plain = some [] := rfl
    rw [Machine.run_of_feed kept ends, List.append_nil]
  rw [tokens?, same]
  exact cut

theorem tokens?_written (n : Int) (isLong : Bool) :
    tokens? (written n isLong) = some (sign n ++ [.number n.natAbs isLong]) :=
  tokens?_of_kept (kept_codeUnits (backslash_notMem_written n isLong)) (run_written n isLong)

theorem tokens?_enclosed (plain : '\\' ∉ before)
    (fed : tokenizer.feed .start (before.flatMap codeUnits) = some (tokens, .start)) (n : Int)
    (isLong : Bool) :
    tokens? (before ++ (written n isLong ++ [')'])) =
      some (tokens ++ (sign n ++ [.number n.natAbs isLong, .closing])) := by
  have closing : '\\' ∉ written n isLong ++ [')'] := by
    simpa using backslash_notMem_written n isLong
  refine tokens?_of_kept (kept_codeUnits ?_) ?_
  · rw [List.mem_append, not_or]
    exact ⟨plain, closing⟩
  · rw [List.flatMap_append]
    exact run_of_feed_start (Machine.feed_append fed (feed_written_closing n isLong))

theorem tokens?_text (cs : List Char) :
    tokens? ('"' :: cs.flatMap (escaped '"') ++ ['"']) = some [.text (cs.flatMap codeUnits)] := by
  refine tokens?_of_kept ?_ (run_text cs)
  have mark : Kept (codeUnits '"') := rfl
  rw [List.cons_append, List.flatMap_cons, List.flatMap_append, List.flatMap_assoc, List.flatMap_singleton]
  exact mark.append ((Kept.flatMap (kept_escaped (.inl rfl)) cs).append mark)

theorem tokens?_character (single : codeUnits c = [unit c]) :
    tokens? (quoteMark :: escaped quoteMark c ++ [quoteMark]) = some [.character (unit c)] := by
  refine tokens?_of_kept ?_ (run_character single)
  have mark : Kept (codeUnits quoteMark) := rfl
  rw [List.cons_append, List.flatMap_cons, List.flatMap_append, List.flatMap_singleton]
  exact mark.append ((kept_escaped (.inr rfl) c).append mark)

end Lexis
end JavaSmith
