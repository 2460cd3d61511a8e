import JavaSmith.Literal

/-! Texts of expressions, taken apart. A phrase is a word, a quoted text, or what parentheses and brackets
hold; its text is that of its parts, with nothing but blanks and commas between them. -/
namespace JavaSmith

def isWordChar (c : Char) : Bool :=
  !(['(', ')', '[', ']', ' ', ',', '"', quoteMark].contains c)

def isTypeChar (c : Char) : Bool := c.isAlpha || c == '.' || c == '[' || c == ']'

inductive Phrase where
  | word (w : List Char)
  | quoted (quote : Char) (content : List Char)
  /-- A word in parentheses. -/
  | negative (w : List Char)
  | cast (type : List Char) (operand : Phrase)
  | operation (left : Phrase) (op : List Char) (right : Phrase)
  | send (receiver : Phrase) (name : List Char) (args : List Phrase)
  | apply (name : List Char) (args : List Phrase)
  | create (type : List Char) (args : List Phrase)
  | sized (type : List Char) (sizes : List Phrase)

def newWord : List Char := ['n', 'e', 'w']

namespace Phrase

mutual

def text : Phrase → List Char
  | word w => w
  | quoted quote content => quote :: content.flatMap (escaped quote) ++ [quote]
  | negative w => '(' :: w ++ [')']
  | cast type operand => '(' :: '(' :: type ++ ')' :: ' ' :: operand.text ++ [')']
  | operation left op right => '(' :: left.text ++ ' ' :: op ++ ' ' :: right.text ++ [')']
  | send receiver name args => '(' :: receiver.text ++ ')' :: '.' :: name ++ '(' :: textOfArguments args
  | apply name args => name ++ '(' :: textOfArguments args
  | create type args => newWord ++ ' ' :: type ++ '(' :: textOfArguments args
  | sized type sizes => newWord ++ ' ' :: type ++ textOfSizes sizes

def textOfArguments : List Phrase → List Char
  | [] => [')']
  | first :: rest => first.text ++ textOfRest rest

def textOfRest : List Phrase → List Char
  | [] => [')']
  | next :: rest => ',' :: ' ' :: next.text ++ textOfRest rest

def textOfSizes : List Phrase → List Char
  | [] => []
  | first :: rest => '[' :: first.text ++ ']' :: textOfSizes rest

end

end Phrase

namespace Phrase

/-- A word that begins nothing else. -/
structure IsWord (w : List Char) : Prop where
  some' : w ≠ []
  other : w ≠ newWord
  all : ∀ c ∈ w, isWordChar c = true

/-- Phrases whose parts can be told apart. A number with a minus stands in parentheses where something
comes behind it. -/
inductive Wf : Phrase → Prop where
  | word {w : List Char} : IsWord w → Wf (.word w)
  | quoted {quote : Char} {content : List Char} : quote = '"' ∨ quote = quoteMark →
      Wf (.quoted quote content)
  | negative {w : List Char} : w.head? = some '-' → (∀ c ∈ w, isWordChar c = true) →
      Wf (.negative w)
  | cast {type : List Char} {operand : Phrase} : (∀ c ∈ type, isTypeChar c = true) → Wf operand →
      Wf (.cast type operand)
  | operation {left right : Phrase} {op : List Char} : Wf left → left.text.head? ≠ some '-' →
      (∀ c ∈ op, isWordChar c = true) → Wf right → Wf (.operation left op right)
  | send {receiver : Phrase} {name : List Char} {args : List Phrase} : Wf receiver →
      receiver.text.head? ≠ some '-' → (∀ c ∈ name, isWordChar c = true) → (∀ a ∈ args, Wf a) →
      Wf (.send receiver name args)
  | apply {name : List Char} {args : List Phrase} : IsWord name → (∀ a ∈ args, Wf a) →
      Wf (.apply name args)
  | create {type : List Char} {args : List Phrase} : (∀ c ∈ type, isWordChar c = true) →
      (∀ a ∈ args, Wf a) → Wf (.create type args)
  | sized {type : List Char} {sizes : List Phrase} : (∀ c ∈ type, isWordChar c = true) →
      (∀ a ∈ sizes, Wf a) → Wf (.sized type sizes)

variable {p : Phrase} {w : List Char}

theorem exists_cons_of_isWord (isWord : IsWord w) : ∃ c s, w = c :: s ∧ isWordChar c = true := by
  cases w with
  | nil => exact absurd rfl isWord.some'
  | cons c s => exact ⟨c, s, rfl, isWord.all c List.mem_cons_self⟩

theorem ne_of_isWordChar {c d : Char} (h : isWordChar c = true) (delimiter : isWordChar d = false) :
    c ≠ d := by
  rintro rfl
  rw [h] at delimiter
  contradiction

theorem isWordChar_of_mem_newWord : ∀ c ∈ newWord, isWordChar c = true :=
  List.all_eq_true.1 (by decide)

theorem Wf.head (wf : p.Wf) : ∃ c s, p.text = c :: s ∧ c ≠ ')' := by
  cases wf with
  | word isWord =>
    obtain ⟨c, s, rfl, first⟩ := exists_cons_of_isWord isWord
    exact ⟨c, s, rfl, ne_of_isWordChar first (by decide)⟩
  | apply isWord =>
    obtain ⟨c, s, rfl, first⟩ := exists_cons_of_isWord isWord
    exact ⟨c, _, rfl, ne_of_isWordChar first (by decide)⟩
  | quoted mark =>
    refine ⟨_, _, rfl, ?_⟩
    rcases mark with rfl | rfl <;> decide
  | _ => exact ⟨_, _, rfl, by decide⟩

theorem all_or_breaks (w : List Char) : (∀ c ∈ w, isTypeChar c = true) ∨
    ∃ u c v, w = u ++ c :: v ∧ (∀ d ∈ u, isTypeChar d = true) ∧ isTypeChar c = false := by
  induction w with
  | nil => exact .inl fun c none => by contradiction
  | cons first rest ih =>
    cases type : isTypeChar first with
    | false => exact .inr ⟨[], first, rest, rfl, fun d none => by contradiction, type⟩
    | true =>
      rcases ih with all | ⟨u, c, v, rfl, before, breaks⟩
      · exact .inl (List.forall_mem_cons.2 ⟨type, all⟩)
      · exact .inr ⟨first :: u, c, v, rfl, List.forall_mem_cons.2 ⟨type, before⟩, breaks⟩

/-- Behind what might be a type no parenthesis is closed, unless the phrase is a word. -/
theorem Wf.breaks (wf : p.Wf) : (∀ c ∈ p.text, isTypeChar c = true) ∨
    ∃ u c v, p.text = u ++ c :: v ∧ (∀ d ∈ u, isTypeChar d = true) ∧ isTypeChar c = false ∧
      c ≠ ')' := by
  have inWord {u v : List Char} {c : Char} (all : ∀ d ∈ u ++ c :: v, isWordChar d = true) :
      c ≠ ')' :=
    ne_of_isWordChar (all c (List.mem_append_right _ List.mem_cons_self)) (by decide)
  cases wf with
  | word isWord =>
    refine (all_or_breaks _).imp_right ?_
    rintro ⟨u, c, v, rfl, before, breaks⟩
    exact ⟨u, c, v, rfl, before, breaks, inWord isWord.all⟩
  | @apply name args isWord =>
    rcases all_or_breaks name with all | ⟨u, c, v, rfl, before, breaks⟩
    · exact .inr ⟨name, '(', _, rfl, all, by decide, by decide⟩
    · exact .inr ⟨u, c, _, by rw [text, List.append_assoc, List.cons_append], before, breaks,
        inWord isWord.all⟩
  | quoted mark =>
    refine .inr ⟨[], _, _, rfl, fun d none => by contradiction, ?_⟩
    rcases mark with rfl | rfl <;> decide
  | create | sized =>
    have letters : ∀ c ∈ newWord, isTypeChar c = true := List.all_eq_true.1 (by decide)
    exact .inr ⟨newWord, ' ', _, rfl, letters, by decide, by decide⟩
  | _ => exact .inr ⟨[], '(', _, rfl, fun d none => by contradiction, by decide, by decide⟩

end Phrase
end JavaSmith
