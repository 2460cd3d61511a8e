import JavaSmith.Proofs.Reader
import JavaSmith.Proofs.Words

/-! What a phrase stands for: a tree, as far as its text tells. Types are without their domains and
constants without the types they are used at, and a number with a cast is the cast of an `int`. Nothing
else is lost, and no phrase stands for two trees. -/
namespace JavaSmith

open Catalog

def Ty.erased : Ty → Ty
  | restricted r => primitive r.base
  | array component n => array component.erased n
  | t => t

/-- The callee with its owner so. -/
def Callee.erased (callee : Callee) : Callee := { callee with owner := callee.owner.map Ty.erased }

namespace Tree

def castNumber (k : Kind) (n : Int32) : Tree := .cast (.primitive k) (.constant (.int n) .void)

/-- The constant as it is written; narrow integers carry a cast, and so do characters that are not
printable. -/
def ofValue : Value → Tree
  | .byte n => castNumber .byte n.toInt32
  | .short n => castNumber .short n.toInt32
  | .char unit =>
    if 32 ≤ unit ∧ unit ≤ 126 then .constant (.char unit) .void
    else castNumber .char (Int32.ofNat unit.toNat)
  | v => .constant v .void

mutual

/-- The tree as far as its text tells. -/
def canonical : Tree → Tree
  | constant v _ => ofValue v
  | read v => read v
  | call callee args => call callee.erased (canonicalAll args)
  | send receiver callee args => send receiver.canonical callee.erased (canonicalAll args)
  | construct t args => construct t.erased (canonicalAll args)
  | newArray t sizes => newArray t.erased (canonicalAll sizes)
  | cast t operand => cast t.erased operand.canonical
  | binary op left right => binary op left.canonical right.canonical
  | assign v source => assign v source.canonical
  | hole => hole

def canonicalAll : List Tree → List Tree
  | [] => []
  | t :: rest => t.canonical :: canonicalAll rest

end

theorem canonicalAll_eq_map (ts : List Tree) : canonicalAll ts = ts.map canonical := by
  induction ts with
  | nil => rfl
  | cons t rest ih => rw [canonicalAll, ih, List.map_cons]

end Tree

/-- `Denotes d p t` says that the phrase `p` stands for the tree `t` in a class with these
declarations. -/
inductive Denotes (d : Declarations) : Phrase → Tree → Prop where
  | word {w : List Char} {t : Tree} : Word w t → w.head? ≠ some '-' → Denotes d (.word w) t
  | negative {w : List Char} {t : Tree} : Word w t → w.head? = some '-' → Denotes d (.negative w) t
  | char {quote : Char} {content : List Char} {unit : UInt16} : 32 ≤ unit ∧ unit ≤ 126 →
      quote = quoteMark → content = [Char.ofNat unit.toNat] →
      Denotes d (.quoted quote content) (.constant (.char unit) .void)
  | string {quote : Char} {content : List Char} {s : String} : quote = '"' → content = s.toList →
      Denotes d (.quoted quote content) (.constant (.string s) .void)
  | null {type w : List Char} : (∀ c ∈ type, isTypeChar c = true) → w = ['n', 'u', 'l', 'l'] →
      Denotes d (.cast type (.word w)) (.constant .null .void)
  | number {k : Kind} {n : Int32} {type w : List Char} : type = k.keyword.toList →
      w = numeral n.toInt → Denotes d (.cast type (.word w)) (.castNumber k n)
  | cast {k : Kind} {type : List Char} {operand : Phrase} {t : Tree} : type = k.keyword.toList →
      Denotes d operand t → Denotes d (.cast type operand) (.cast (.primitive k) t)
  | binary {op : Operator} {symbol : List Char} {left right : Phrase} {a b : Tree} :
      symbol = op.symbol.toList → Denotes d left a → Denotes d right b →
      Denotes d (.operation left symbol right) (.binary op a b)
  | assign {v : Var} {symbol : List Char} {left source : Phrase} {t : Tree} : symbol = ['='] →
      left = .word v.name.toList → Denotes d source t →
      Denotes d (.operation left symbol source) (.assign v t)
  | call {m : MethodId} {name : List Char} {args : List Phrase} {ts : List Tree} :
      m < d.methods.size → name = (d.method m).name.toList → args.length = ts.length →
      (∀ i (h : i < args.length) (h' : i < ts.length), Denotes d args[i] ts[i]) →
      Denotes d (.apply name args) (.call (d.callee m) ts)
  | onClass {owner : Ty} {name : String} {target : List Char} {args : List Phrase} {ts : List Tree} :
      owner ∈ sessionTypes → (∀ c ∈ name.toList, c.isAlpha = true) →
      target = owner.spelling.toList ++ '.' :: name.toList → args.length = ts.length →
      (∀ i (h : i < args.length) (h' : i < ts.length), Denotes d args[i] ts[i]) →
      Denotes d (.apply target args) (.call ⟨true, some owner, name, none⟩ ts)
  | send {receiver : Phrase} {target : Tree} {name : String} {w : List Char} {args : List Phrase}
      {ts : List Tree} :
      (∀ c ∈ name.toList, c.isAlpha = true) → w = name.toList → Denotes d receiver target →
      args.length = ts.length →
      (∀ i (h : i < args.length) (h' : i < ts.length), Denotes d args[i] ts[i]) →
      Denotes d (.send receiver w args) (.send target ⟨false, none, name, none⟩ ts)
  | construct {t : Ty} {type : List Char} {args : List Phrase} {ts : List Tree} : t ∈ sessionTypes →
      type = t.spelling.toList → args.length = ts.length →
      (∀ i (h : i < args.length) (h' : i < ts.length), Denotes d args[i] ts[i]) →
      Denotes d (.create type args) (.construct t ts)
  | newArray {component : Ty} {type : List Char} {sizes : List Phrase} {ts : List Tree} :
      component ∈ sessionTypes → type = component.spelling.toList → sizes.length = ts.length →
      (∀ i (h : i < sizes.length) (h' : i < ts.length), Denotes d sizes[i] ts[i]) →
      Denotes d (.sized type sizes) (.newArray (.array component sizes.length) ts)

namespace Catalog

theorem spelling_injOn {t u : Ty} (h : t ∈ sessionTypes) (h' : u ∈ sessionTypes)
    (same : t.spelling = u.spelling) : t = u := by
  have distinct : (sessionTypes.map Ty.spelling).Nodup := by decide +kernel
  exact List.inj_on_of_nodup_map distinct h h' same

theorem mem_spelling {t : Ty} (h : t ∈ sessionTypes) :
    ∀ c ∈ t.spelling.toList, isTypeChar c = true ∧ isWordChar c = true := by
  have letters : (sessionTypes.all fun t =>
      t.spelling.toList.all fun c => isTypeChar c && isWordChar c) = true := by decide +kernel
  intro c member
  simpa using List.all_eq_true.1 (List.all_eq_true.1 letters t h) c member

theorem head?_spelling {t : Ty} (h : t ∈ sessionTypes) : t.spelling.toList.head? ≠ some '-' := by
  revert t
  decide +kernel

end Catalog

theorem Kind.mem_keyword (k : Kind) : ∀ c ∈ k.keyword.toList, isTypeChar c = true := by
  cases k <;> exact List.all_eq_true.1 (by decide)

theorem Operator.mem_symbol (op : Operator) : ∀ c ∈ op.symbol.toList, isWordChar c = true := by
  cases op <;> exact List.all_eq_true.1 (by decide)

theorem Var.head?_name (v : Var) : v.name.toList.head? ≠ some '-' := by
  obtain ⟨letter, isLetter, n, same⟩ := v.exists_toList_name
  rw [same]
  rintro ⟨⟩
  exact absurd isLetter (by decide)

theorem Kind.keyword_injective : Function.Injective keyword := by
  intro k k'
  cases k <;> cases k' <;> decide

theorem Operator.symbol_injective : Function.Injective symbol := by
  intro op op'
  cases op <;> cases op' <;> decide

theorem methodName_chars (m : MethodId) :
    ∃ letter ∈ ['r', 'm'], ∃ rest, (methodName m).toList = letter :: rest ∧
      ∀ c ∈ rest, isWordChar c = true ∧ c ≠ '.' := by
  cases m with
  | zero => exact ⟨'r', by decide, ['u', 'n'], by decide, by simp [isWordChar, quoteMark]⟩
  | succ m =>
    refine ⟨'m', by decide, _, String.toList_ofList, fun c member => ?_⟩
    have digit := isDigit_of_mem_toDigits member
    refine ⟨isWordChar_of_isDigit digit, ?_⟩
    rintro rfl
    contradiction

theorem isWord_methodName (m : MethodId) : Phrase.IsWord (methodName m).toList := by
  obtain ⟨letter, isLetter, rest, same, all⟩ := methodName_chars m
  rw [same]
  refine ⟨List.cons_ne_nil _ _, ?_, List.forall_mem_cons.2 ⟨?_, fun c member => (all c member).1⟩⟩
  · intro new
    have first : letter = 'n' := (List.cons.inj new).1
    rw [first] at isLetter
    exact absurd isLetter (by decide)
  · have letters : ∀ c ∈ ['r', 'm'], isWordChar c = true := List.all_eq_true.1 (by decide)
    exact letters letter isLetter

theorem dot_notMem_methodName (m : MethodId) : '.' ∉ (methodName m).toList := by
  obtain ⟨letter, isLetter, rest, same, all⟩ := methodName_chars m
  rw [same, List.mem_cons]
  rintro (rfl | member)
  · exact absurd isLetter (by decide)
  · exact (all _ member).2 rfl

theorem isWord_target {owner : Ty} {name : String} (h : owner ∈ sessionTypes)
    (letters : ∀ c ∈ name.toList, c.isAlpha = true) :
    Phrase.IsWord (owner.spelling.toList ++ '.' :: name.toList) where
  some' := by simp
  other new := by
    have dot : '.' ∈ owner.spelling.toList ++ '.' :: name.toList := by simp
    rw [new] at dot
    exact absurd dot (by decide)
  all c member := by
    rcases List.mem_append.1 member with old | behind
    · exact (mem_spelling h c old).2
    · rcases List.mem_cons.1 behind with rfl | letter
      · decide
      · exact isWordChar_of_isAlpha (letters c letter)

theorem eq_of_append_cons {α : Type} {a : α} {s s' n n' : List α} (last : a ∉ n) (last' : a ∉ n')
    (same : s ++ a :: n = s' ++ a :: n') : s = s' ∧ n = n' := by
  induction s generalizing s' with
  | nil =>
    cases s' with
    | nil => exact ⟨rfl, (List.cons.inj same).2⟩
    | cons b s' =>
      have rest : n = s' ++ a :: n' := (List.cons.inj same).2
      exact absurd (rest ▸ List.mem_append_right s' List.mem_cons_self) last
  | cons b s ih =>
    cases s' with
    | nil =>
      have rest : s ++ a :: n = n' := (List.cons.inj same).2
      exact absurd (rest ▸ List.mem_append_right s List.mem_cons_self) last'
    | cons b' s' =>
      obtain ⟨first, rest⟩ := List.cons.inj same
      obtain ⟨rfl, rfl⟩ := ih rest
      exact ⟨first ▸ rfl, rfl⟩

namespace Denotes

variable {d : Declarations} {p : Phrase} {t : Tree}

theorem unsigned (orderly : d.Orderly) (denotes : Denotes d p t) : p.text.head? ≠ some '-' := by
  have other {c : Char} (other : c ≠ '-') (s : List Char) : (c :: s).head? ≠ some '-' :=
    fun minus => other (Option.some.inj minus)
  cases denotes with
  | word _ plus => exact plus
  | char _ mark | string mark =>
    subst mark
    exact other (by decide) _
  | call inside name =>
    obtain ⟨letter, isLetter, rest, same, _⟩ := methodName_chars _
    rw [Phrase.text, name, orderly.names _ inside, same]
    refine other ?_ _
    rintro rfl
    exact absurd isLetter (by decide)
  | @onClass owner name _ _ _ member _ same =>
    have first := head?_spelling member
    rw [Phrase.text, same]
    cases spelled : owner.spelling.toList with
    | nil => exact other (by decide) _
    | cons c s =>
      rw [spelled] at first
      exact first
  | _ => exact other (by decide) _

theorem wf_all {args : List Phrase} {ts : List Tree} (length : args.length = ts.length)
    (all : ∀ i (h : i < args.length), i < ts.length → args[i].Wf) : ∀ a ∈ args, a.Wf := by
  intro a member
  obtain ⟨i, inside, rfl⟩ := List.getElem_of_mem member
  exact all i inside (length ▸ inside)

theorem wf (orderly : d.Orderly) (denotes : Denotes d p t) : p.Wf := by
  induction denotes with
  | word word => exact .word word.isWord
  | negative word minus => exact .negative minus word.isWord.all
  | char _ mark => exact .quoted (.inr mark)
  | string mark => exact .quoted (.inl mark)
  | null all same =>
    subst same
    exact .cast all (.word ⟨by decide, by decide, List.all_eq_true.1 (by decide)⟩)
  | @number k n _ _ same same' =>
    subst same same'
    exact .cast k.mem_keyword (.word (Word.int n).isWord)
  | @cast k _ _ _ same _ ih =>
    subst same
    exact .cast k.mem_keyword ih
  | @binary op _ _ _ _ _ same left _ ih ih' =>
    subst same
    exact .operation ih (left.unsigned orderly) op.mem_symbol ih'
  | @assign v _ _ _ _ same left _ ih =>
    subst same left
    exact .operation (.word (Word.read v).isWord) v.head?_name
      (List.all_eq_true.1 (by decide)) ih
  | call inside same length _ ih =>
    rw [same, orderly.names _ inside]
    exact .apply (isWord_methodName _) (wf_all length ih)
  | onClass member letters same length _ ih =>
    subst same
    exact .apply (isWord_target member letters) (wf_all length ih)
  | send letters same target length _ ih ih' =>
    subst same
    exact .send ih (target.unsigned orderly) (fun c member => isWordChar_of_isAlpha (letters c member))
      (wf_all length ih')
  | construct member same length _ ih =>
    subst same
    exact .create (fun c inside => (mem_spelling member c inside).2) (wf_all length ih)
  | newArray member same length _ ih =>
    subst same
    exact .sized (fun c inside => (mem_spelling member c inside).2) (wf_all length ih)

theorem eq_all {args : List Phrase} {ts ts' : List Tree} (length : args.length = ts.length)
    (length' : args.length = ts'.length)
    (unique : ∀ i (h : i < args.length) (h' : i < ts.length) t', Denotes d args[i] t' → ts[i] = t')
    (all : ∀ i (h : i < args.length) (h' : i < ts'.length), Denotes d args[i] ts'[i]) : ts = ts' := by
  refine List.ext_getElem (length.symm.trans length') fun i h h' => ?_
  exact unique i (length ▸ h) h _ (all i (length ▸ h) h')

theorem null_notWord {t : Tree} : ¬Word ['n', 'u', 'l', 'l'] t :=
  fun word => absurd word.sort_mem (by decide)

/-- A phrase does not stand for two trees. -/
theorem functional (orderly : d.Orderly) (denotes : Denotes d p t) :
    ∀ t', Denotes d p t' → t = t' := by
  induction denotes with
  | word word _ =>
    intro t' denotes'
    cases denotes' with
    | word word' _ => exact word.functional word' rfl
  | negative word _ =>
    intro t' denotes'
    cases denotes' with
    | negative word' _ => exact word.functional word' rfl
  | @char quote content unit range mark same =>
    intro t' denotes'
    cases denotes' with
    | @char _ _ unit' range' _ same' =>
      have units : Char.ofNat unit.toNat = Char.ofNat unit'.toNat :=
        (List.cons.inj (same.symm.trans same')).1
      have numbers := congrArg Char.toNat units
      rw [toNat_ofNat_printable range, toNat_ofNat_printable range'] at numbers
      rw [UInt16.toNat_inj.1 numbers]
    | string mark' => exact absurd (mark.symm.trans mark') (by decide)
  | string mark same =>
    intro t' denotes'
    cases denotes' with
    | char _ mark' => exact absurd (mark.symm.trans mark') (by decide)
    | string _ same' => rw [String.toList_injective (same.symm.trans same')]
  | null _ same =>
    intro t' denotes'
    subst same
    cases denotes' with
    | null => rfl
    | @number _ n _ _ _ same' => exact absurd (same' ▸ Word.int n) null_notWord
    | cast _ operand =>
      cases operand with
      | word word => exact absurd word null_notWord
  | @number k n _ _ same same' =>
    intro t' denotes'
    cases denotes' with
    | null _ null =>
      have word := Word.int n
      rw [← same', null] at word
      exact absurd word null_notWord
    | @number k' n' _ _ other other' =>
      rw [Kind.keyword_injective (String.toList_injective (same.symm.trans other)),
        Int32.toInt_inj.1 (numeral_injective (same'.symm.trans other'))]
    | @cast k' _ _ _ other operand =>
      rw [Kind.keyword_injective (String.toList_injective (same.symm.trans other))]
      cases operand with
      | word word =>
        rw [← (Word.int n).functional word same'.symm]
        rfl
  | @cast k _ _ _ same operand ih =>
    intro t' denotes'
    cases denotes' with
    | null _ null =>
      subst null
      cases operand with
      | word word => exact absurd word null_notWord
    | @number k' n' _ _ other other' =>
      rw [Kind.keyword_injective (String.toList_injective (same.symm.trans other))]
      cases operand with
      | word word =>
        rw [word.functional (Word.int n') other']
        rfl
    | cast other operand' =>
      rw [Kind.keyword_injective (String.toList_injective (same.symm.trans other)), ih _ operand']
  | @binary op _ _ _ _ _ same _ _ ih ih' =>
    intro t' denotes'
    cases denotes' with
    | binary other left right =>
      rw [Operator.symbol_injective (String.toList_injective (same.symm.trans other)), ih _ left,
        ih' _ right]
    | assign equals =>
      have symbol := same.symm.trans equals
      cases op <;> exact absurd symbol (by decide)
  | assign equals left _ ih =>
    intro t' denotes'
    cases denotes' with
    | @binary op _ _ _ _ _ other =>
      have symbol := other.symm.trans equals
      cases op <;> exact absurd symbol (by decide)
    | assign _ left' source =>
      have names := Phrase.word.inj (left.symm.trans left')
      rw [Var.name_injective (String.toList_injective names), ih _ source]
  | @call m _ _ _ inside same length _ ih =>
    intro t' denotes'
    cases denotes' with
    | @call m' _ _ _ inside' same' length' all =>
      have names := String.toList_injective (same.symm.trans same')
      rw [orderly.names m inside, orderly.names m' inside'] at names
      rw [methodName_injective names, eq_all length length' ih all]
    | onClass _ _ target =>
      have name := same.symm.trans target
      rw [orderly.names m inside] at name
      exact absurd (name ▸ List.mem_append_right _ List.mem_cons_self) (dot_notMem_methodName m)
  | @onClass owner name _ _ _ member letters same length _ ih =>
    intro t' denotes'
    have dot {name : String} (letters : ∀ c ∈ name.toList, c.isAlpha = true) : '.' ∉ name.toList :=
      fun inside => absurd (letters _ inside) (by decide)
    cases denotes' with
    | @call m' _ _ _ inside' same' =>
      have name := same'.symm.trans same
      rw [orderly.names m' inside'] at name
      exact absurd (name ▸ List.mem_append_right _ List.mem_cons_self) (dot_notMem_methodName m')
    | onClass member' letters' same' length' all =>
      obtain ⟨owners, names⟩ :=
        eq_of_append_cons (dot letters) (dot letters') (same.symm.trans same')
      rw [spelling_injOn member member' (String.toList_injective owners),
        String.toList_injective names, eq_all length length' ih all]
  | send _ same _ length _ ih ih' =>
    intro t' denotes'
    cases denotes' with
    | send _ same' target length' all =>
      rw [String.toList_injective (same.symm.trans same'), ih _ target, eq_all length length' ih' all]
  | construct member same length _ ih =>
    intro t' denotes'
    cases denotes' with
    | construct member' same' length' all =>
      rw [spelling_injOn member member' (String.toList_injective (same.symm.trans same')),
        eq_all length length' ih all]
  | newArray member same length _ ih =>
    intro t' denotes'
    cases denotes' with
    | newArray member' same' length' all =>
      rw [spelling_injOn member member' (String.toList_injective (same.symm.trans same')),
        eq_all length length' ih all]

end Denotes
end JavaSmith
