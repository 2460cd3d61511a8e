import JavaSmith.Proofs.Phrases

/-! How the text of a phrase is read. The reader gives what it has found and the text behind it; it tells
by the next characters what is to come. In the text of a phrase it finds that phrase, so no two phrases
have one text. -/
namespace JavaSmith

namespace Reader

def strip (c : Char) : List Char → Option (List Char)
  | [] => none
  | d :: s => if d = c then some s else none

def takeWord (s : List Char) : List Char × List Char := (s.takeWhile isWordChar, s.dropWhile isWordChar)

def unescaped (c : Char) : Char :=
  if c = 'n' then '\n' else if c = 't' then '\t' else if c = 'r' then '\r' else c

def content (quote : Char) : List Char → Option (List Char × List Char)
  | [] => none
  | c :: s =>
    if c = quote then some ([], s)
    else if c = '\\' then
      match s with
      | [] => none
      | d :: s => (content quote s).map fun (found, rest) => (unescaped d :: found, rest)
    else (content quote s).map fun (found, rest) => (c :: found, rest)

def quotedText : List Char → Option (Phrase × List Char)
  | [] => none
  | c :: s =>
    if c = '"' ∨ c = quoteMark then (content c s).map fun (found, rest) => (.quoted c found, rest)
    else none

def castTarget (s : List Char) : Option (List Char × List Char) := do
  let s ← strip '(' s
  let rest ← strip ')' (s.dropWhile isTypeChar)
  let rest ← strip ' ' rest
  return (s.takeWhile isTypeChar, rest)

mutual

def phrase : (fuel : Nat) → List Char → Option (Phrase × List Char)
  | 0, _ => none
  | fuel + 1, s =>
    match strip '(' s with
    | some s => group fuel s
    | none =>
      match quotedText s with
      | some found => some found
      | none =>
        let (w, s) := takeWord s
        if w = newWord then creation fuel s
        else
          match strip '(' s with
          | some s => (arguments fuel s).map fun (args, s) => (.apply w args, s)
          | none => some (.word w, s)

def group : (fuel : Nat) → List Char → Option (Phrase × List Char)
  | 0, _ => none
  | fuel + 1, s =>
    match castTarget s, strip '-' s with
    | some (type, s), _ => do
      let (operand, s) ← phrase fuel s
      let s ← strip ')' s
      return (.cast type operand, s)
    | none, some _ => do
      let (w, s) := takeWord s
      let s ← strip ')' s
      return (.negative w, s)
    | none, none => do
      let (first, s) ← phrase fuel s
      behind fuel first s

def behind : (fuel : Nat) → Phrase → List Char → Option (Phrase × List Char)
  | 0, _, _ => none
  | fuel + 1, first, s =>
    match strip ' ' s with
    | some s => do
      let (op, s) := takeWord s
      let s ← strip ' ' s
      let (second, s) ← phrase fuel s
      let s ← strip ')' s
      return (.operation first op second, s)
    | none => do
      let s ← strip ')' s
      let s ← strip '.' s
      let (name, s) := takeWord s
      let s ← strip '(' s
      let (args, s) ← arguments fuel s
      return (.send first name args, s)

def creation : (fuel : Nat) → List Char → Option (Phrase × List Char)
  | 0, _ => none
  | fuel + 1, s => do
    let s ← strip ' ' s
    let (type, s) := takeWord s
    match strip '(' s with
    | some s => (arguments fuel s).map fun (args, s) => (.create type args, s)
    | none => (sizes fuel s).map fun (found, s) => (.sized type found, s)

def arguments : (fuel : Nat) → List Char → Option (List Phrase × List Char)
  | 0, _ => none
  | fuel + 1, s =>
    match strip ')' s with
    | some s => some ([], s)
    | none => do
      let (first, s) ← phrase fuel s
      let (rest, s) ← moreArguments fuel s
      return (first :: rest, s)

def moreArguments : (fuel : Nat) → List Char → Option (List Phrase × List Char)
  | 0, _ => none
  | fuel + 1, s =>
    match strip ')' s with
    | some s => some ([], s)
    | none => do
      let s ← strip ',' s
      let s ← strip ' ' s
      let (next, s) ← phrase fuel s
      let (rest, s) ← moreArguments fuel s
      return (next :: rest, s)

def sizes : (fuel : Nat) → List Char → Option (List Phrase × List Char)
  | 0, _ => none
  | fuel + 1, s =>
    match strip '[' s with
    | none => some ([], s)
    | some s => do
      let (first, s) ← phrase fuel s
      let s ← strip ']' s
      let (rest, s) ← sizes fuel s
      return (first :: rest, s)

end

/-- The text cannot go on with what stands before it. -/
def Stops (s : List Char) : Prop := ∀ c ∈ s.head?, c ∈ [')', ' ', ',', ']']

variable {s r : List Char} {c d : Char}

theorem strip_same (c : Char) (s : List Char) : strip c (c :: s) = some s := if_pos rfl

theorem strip_other (other : d ≠ c) (s : List Char) : strip c (d :: s) = none := if_neg other

theorem Stops.strip (stops : Stops s) (go : c ∉ [')', ' ', ',', ']']) : strip c s = none := by
  cases s with
  | nil => rfl
  | cons d s =>
    refine strip_other ?_ s
    rintro rfl
    exact go (stops d rfl)

theorem stops_cons (listed : c ∈ [')', ' ', ',', ']']) (s : List Char) : Stops (c :: s) := by
  rintro d ⟨⟩
  exact listed

theorem takeWord_append {w : List Char} (all : ∀ c ∈ w, isWordChar c = true)
    (ends : ∀ c ∈ r.head?, isWordChar c = false) : takeWord (w ++ r) = (w, r) := by
  unfold takeWord
  rw [List.takeWhile_append_of_pos all, List.dropWhile_append_of_pos all]
  cases r with
  | nil => simp
  | cons c r => simp [ends c rfl]

theorem Stops.ends (stops : Stops r) : ∀ c ∈ r.head?, isWordChar c = false := by
  intro c first
  have listed := stops c first
  have all : ∀ d ∈ [')', ' ', ',', ']'], isWordChar d = false := by simp [isWordChar]
  exact all c listed

theorem takeWord_delimited {w : List Char} (all : ∀ c ∈ w, isWordChar c = true)
    (delimiter : isWordChar c = false) (r : List Char) : takeWord (w ++ c :: r) = (w, c :: r) := by
  refine takeWord_append all ?_
  rintro d ⟨⟩
  exact delimiter

theorem content_cons (quote c : Char) (s : List Char) :
    content quote (c :: s) =
      if c = quote then some ([], s)
      else if c = '\\' then
        match s with
        | [] => none
        | d :: s => (content quote s).map fun (found, rest) => (unescaped d :: found, rest)
      else (content quote s).map fun (found, rest) => (c :: found, rest) := by
  rw [content.eq_def]

theorem content_escaped {quote : Char} (mark : quote = '"' ∨ quote = quoteMark) (c : Char)
    (s : List Char) : content quote (escaped quote c ++ s) =
      (content quote s).map fun (found, rest) => (c :: found, rest) := by
  have notBackslash : '\\' ≠ quote := by
    rcases mark with rfl | rfl <;> decide
  unfold escaped
  by_cases backslash : c = '\\'
  · subst c
    simp [content_cons, notBackslash, unescaped]
  by_cases newline : c = '\n'
  · subst c
    simp [content_cons, notBackslash, unescaped]
  by_cases tab : c = '\t'
  · subst c
    simp [content_cons, notBackslash, unescaped]
  by_cases return' : c = '\r'
  · subst c
    simp [content_cons, notBackslash, unescaped]
  by_cases same : c = quote
  · subst c
    have plain : unescaped quote = quote := by
      rcases mark with rfl | rfl <;> decide
    simp [content_cons, notBackslash, backslash, newline, tab, return', plain]
  · simp [content_cons, backslash, newline, tab, return', same]

theorem content_text {quote : Char} (mark : quote = '"' ∨ quote = quoteMark) (found : List Char)
    (s : List Char) : content quote (found.flatMap (escaped quote) ++ quote :: s) = some (found, s) := by
  induction found with
  | nil => simp [content_cons]
  | cons c rest ih =>
    rw [List.flatMap_cons, List.append_assoc, content_escaped mark, ih]
    rfl

theorem quotedText_other (other : c ≠ '"' ∧ c ≠ quoteMark) (s : List Char) :
    quotedText (c :: s) = none := by
  simp [quotedText, other]

end Reader

namespace Phrase

open Reader

variable {p : Phrase} {w r : List Char}

theorem dropWhile_breaks {u v : List Char} {c : Char} (before : ∀ d ∈ u, isTypeChar d = true)
    (breaks : isTypeChar c = false) : (u ++ c :: v).dropWhile isTypeChar = c :: v := by
  rw [List.dropWhile_append_of_pos before, List.dropWhile_cons_of_neg (by simp [breaks])]

theorem Wf.castTarget (wf : p.Wf) (r : List Char) : castTarget (p.text ++ r) = none := by
  cases wf with
  | word isWord =>
    obtain ⟨c, s, rfl, first⟩ := exists_cons_of_isWord isWord
    simp [Reader.castTarget, text, strip_other (ne_of_isWordChar first (by decide : isWordChar '(' = _))]
  | apply isWord =>
    obtain ⟨c, s, rfl, first⟩ := exists_cons_of_isWord isWord
    simp [Reader.castTarget, text, strip_other (ne_of_isWordChar first (by decide : isWordChar '(' = _))]
  | quoted mark =>
    rcases mark with rfl | rfl <;> rfl
  | create | sized => rfl
  | @negative w minus =>
    cases w with
    | nil => contradiction
    | cons c w =>
      cases minus
      rfl
  | cast => rfl
  | @operation left right op wf =>
    simp only [Reader.castTarget, text, List.cons_append, List.append_assoc, strip_same]
    rcases wf.breaks with all | ⟨u, c, v, same, before, breaks, other⟩
    · rw [Option.bind_eq_bind, Option.bind_some, dropWhile_breaks all (by decide)]
      rfl
    · rw [same, List.append_assoc, List.cons_append, Option.bind_eq_bind, Option.bind_some,
        dropWhile_breaks before breaks, strip_other other]
      rfl
  | @send receiver name args wf =>
    simp only [Reader.castTarget, text, List.cons_append, List.append_assoc, strip_same]
    rcases wf.breaks with all | ⟨u, c, v, same, before, breaks, other⟩
    · rw [Option.bind_eq_bind, Option.bind_some, dropWhile_breaks all (by decide)]
      rfl
    · rw [same, List.append_assoc, List.cons_append, Option.bind_eq_bind, Option.bind_some,
        dropWhile_breaks before breaks, strip_other other]
      rfl

/-- With enough fuel the reader finds the phrase in its text, whatever may stand behind that. -/
def Reads (p : Phrase) : Prop :=
  ∃ least, ∀ fuel ≥ least, ∀ r, Stops r → Reader.phrase fuel (p.text ++ r) = some (p, r)

theorem phrase_parenthesis (fuel : Nat) (s : List Char) :
    Reader.phrase (fuel + 1) ('(' :: s) = Reader.group fuel s := by
  rw [Reader.phrase, strip_same]

theorem phrase_word (some' : w ≠ []) (all : ∀ c ∈ w, isWordChar c = true)
    (ends : ∀ c ∈ r.head?, isWordChar c = false) (fuel : Nat) :
    Reader.phrase (fuel + 1) (w ++ r) =
      if w = newWord then Reader.creation fuel r
      else
        match strip '(' r with
        | some s => (Reader.arguments fuel s).map fun (args, s) => (.apply w args, s)
        | none => some (.word w, r) := by
  obtain ⟨c, s, rfl⟩ := List.exists_cons_of_ne_nil some'
  have first := all c List.mem_cons_self
  have other {d : Char} (delimiter : isWordChar d = false) : c ≠ d := ne_of_isWordChar first delimiter
  rw [Reader.phrase, List.cons_append, strip_other (other (by decide)),
    quotedText_other ⟨other (by decide), other (by decide)⟩, ← List.cons_append,
    takeWord_append all ends]

theorem reads_word (isWord : IsWord w) : (word w).Reads := by
  refine ⟨1, fun fuel enough r stops => ?_⟩
  obtain ⟨fuel, rfl⟩ := Nat.exists_eq_add_of_le' enough
  rw [text, phrase_word isWord.some' isWord.all stops.ends, if_neg isWord.other,
    stops.strip (by decide)]

theorem reads_quoted {quote : Char} (mark : quote = '"' ∨ quote = quoteMark) (content : List Char) :
    (quoted quote content).Reads := by
  refine ⟨1, fun fuel enough r _ => ?_⟩
  obtain ⟨fuel, rfl⟩ := Nat.exists_eq_add_of_le' enough
  have other : quote ≠ '(' := by
    rcases mark with rfl | rfl <;> decide
  rw [text, Reader.phrase, List.cons_append, List.cons_append, strip_other other, quotedText,
    if_pos mark, List.append_assoc, List.singleton_append, content_text mark]
  rfl

theorem reads_negative (minus : w.head? = some '-') (all : ∀ c ∈ w, isWordChar c = true) :
    (negative w).Reads := by
  refine ⟨2, fun fuel enough r _ => ?_⟩
  obtain ⟨fuel, rfl⟩ := Nat.exists_eq_add_of_le' enough
  obtain ⟨c, s, rfl⟩ : ∃ c s, w = c :: s := by
    cases w with
    | nil => contradiction
    | cons c s => exact ⟨c, s, rfl⟩
  obtain rfl : c = '-' := Option.some.inj minus
  have noTarget : Reader.castTarget ('-' :: s ++ ')' :: r) = none := rfl
  have shape : (negative ('-' :: s)).text ++ r = '(' :: ('-' :: s ++ ')' :: r) := by
    simp [text]
  rw [shape, phrase_parenthesis, Reader.group, noTarget, List.cons_append, strip_same,
    ← List.cons_append, takeWord_delimited all (by decide)]
  dsimp only [Option.bind_eq_bind]
  rw [strip_same]
  rfl

theorem reads_cast {type : List Char} {operand : Phrase} (all : ∀ c ∈ type, isTypeChar c = true)
    (reads : operand.Reads) : (cast type operand).Reads := by
  obtain ⟨least, reads⟩ := reads
  refine ⟨least + 2, fun fuel enough r _ => ?_⟩
  obtain ⟨fuel, rfl⟩ : ∃ k, fuel = k + 2 := Nat.exists_eq_add_of_le' (by omega)
  have target : Reader.castTarget ('(' :: type ++ ')' :: ' ' :: (operand.text ++ ')' :: r)) =
      some (type, operand.text ++ ')' :: r) := by
    simp only [Reader.castTarget, List.cons_append, strip_same, Option.bind_eq_bind, Option.bind_some,
      dropWhile_breaks all (by decide : isTypeChar ')' = false)]
    rw [List.takeWhile_append_of_pos all, List.takeWhile_cons_of_neg (by decide), List.append_nil]
    rfl
  have found := reads fuel (by omega) (')' :: r) (stops_cons (by decide) r)
  have shape : (cast type operand).text ++ r =
      '(' :: ('(' :: type ++ ')' :: ' ' :: (operand.text ++ ')' :: r)) := by
    simp [text]
  rw [shape, phrase_parenthesis, Reader.group, target]
  dsimp only [Option.bind_eq_bind]
  rw [found, Option.bind_some]
  dsimp only
  rw [strip_same]
  rfl

theorem group_first (wf : p.Wf) (minus : p.text.head? ≠ some '-') (fuel : Nat) :
    Reader.group (fuel + 1) (p.text ++ r) =
      (do
        let (first, s) ← Reader.phrase fuel (p.text ++ r)
        Reader.behind fuel first s) := by
  have unsigned : strip '-' (p.text ++ r) = none := by
    obtain ⟨c, s, same, _⟩ := wf.head
    rw [same] at minus ⊢
    refine strip_other ?_ _
    rintro rfl
    exact minus rfl
  rw [Reader.group, wf.castTarget, unsigned]

theorem reads_operation {left right : Phrase} {op : List Char} (wf : left.Wf)
    (minus : left.text.head? ≠ some '-') (all : ∀ c ∈ op, isWordChar c = true)
    (reads : left.Reads) (reads' : right.Reads) : (operation left op right).Reads := by
  obtain ⟨least, reads⟩ := reads
  obtain ⟨least', reads'⟩ := reads'
  refine ⟨max least least' + 3, fun fuel enough r _ => ?_⟩
  obtain ⟨fuel, rfl⟩ : ∃ k, fuel = k + 3 := Nat.exists_eq_add_of_le' (by omega)
  have first := reads (fuel + 1) (by omega) (' ' :: (op ++ ' ' :: (right.text ++ ')' :: r)))
    (stops_cons (by decide) _)
  have second := reads' fuel (by omega) (')' :: r) (stops_cons (by decide) r)
  have shape : (operation left op right).text ++ r =
      '(' :: (left.text ++ ' ' :: (op ++ ' ' :: (right.text ++ ')' :: r))) := by
    simp [text]
  rw [shape, phrase_parenthesis, group_first wf minus, first, Option.bind_eq_bind, Option.bind_some]
  dsimp only
  rw [Reader.behind, strip_same]
  dsimp only
  rw [takeWord_delimited all (by decide)]
  dsimp only [Option.bind_eq_bind]
  rw [strip_same, Option.bind_some, second, Option.bind_some]
  dsimp only
  rw [strip_same]
  rfl

section Lists

variable {args : List Phrase} (reads : ∀ a ∈ args, a.Reads)

include reads

theorem moreArguments_text : ∃ least, ∀ fuel ≥ least, ∀ r,
    Reader.moreArguments fuel (textOfRest args ++ r) = some (args, r) := by
  induction args with
  | nil =>
    refine ⟨1, fun fuel enough r => ?_⟩
    obtain ⟨fuel, rfl⟩ := Nat.exists_eq_add_of_le' enough
    rfl
  | cons a rest ih =>
    obtain ⟨least, first⟩ := reads a List.mem_cons_self
    obtain ⟨least', others⟩ := ih fun b member => reads b (List.mem_cons_of_mem _ member)
    refine ⟨max least least' + 1, fun fuel enough r => ?_⟩
    obtain ⟨fuel, rfl⟩ : ∃ k, fuel = k + 1 := Nat.exists_eq_add_of_le' (by omega)
    have stops : Stops (textOfRest rest ++ r) := by
      cases rest with
      | nil => exact stops_cons (by decide) _
      | cons => exact stops_cons (by decide) _
    have shape : textOfRest (a :: rest) ++ r = ',' :: ' ' :: (a.text ++ (textOfRest rest ++ r)) := by
      simp [textOfRest]
    rw [shape, Reader.moreArguments, strip_other (by decide)]
    dsimp only [Option.bind_eq_bind]
    rw [strip_same, Option.bind_some, strip_same, Option.bind_some,
      first fuel (by omega) _ stops, Option.bind_some]
    dsimp only
    rw [others fuel (by omega)]
    rfl

theorem arguments_text (wf : ∀ a ∈ args, a.Wf) : ∃ least, ∀ fuel ≥ least, ∀ r,
    Reader.arguments fuel (textOfArguments args ++ r) = some (args, r) := by
  cases args with
  | nil =>
    refine ⟨1, fun fuel enough r => ?_⟩
    obtain ⟨fuel, rfl⟩ := Nat.exists_eq_add_of_le' enough
    rfl
  | cons a rest =>
    obtain ⟨least, first⟩ := reads a List.mem_cons_self
    obtain ⟨least', others⟩ :=
      moreArguments_text fun b member => reads b (List.mem_cons_of_mem _ member)
    refine ⟨max least least' + 1, fun fuel enough r => ?_⟩
    obtain ⟨fuel, rfl⟩ : ∃ k, fuel = k + 1 := Nat.exists_eq_add_of_le' (by omega)
    have stops : Stops (textOfRest rest ++ r) := by
      cases rest with
      | nil => exact stops_cons (by decide) _
      | cons => exact stops_cons (by decide) _
    have open' : strip ')' (a.text ++ (textOfRest rest ++ r)) = none := by
      obtain ⟨c, s, same, other⟩ := (wf a List.mem_cons_self).head
      rw [same]
      exact strip_other other _
    rw [textOfArguments, List.append_assoc, Reader.arguments, open']
    dsimp only [Option.bind_eq_bind]
    rw [first fuel (by omega) _ stops, Option.bind_some]
    dsimp only
    rw [others fuel (by omega)]
    rfl

theorem sizes_text : ∃ least, ∀ fuel ≥ least, ∀ r, Stops r →
    Reader.sizes fuel (textOfSizes args ++ r) = some (args, r) := by
  induction args with
  | nil =>
    refine ⟨1, fun fuel enough r stops => ?_⟩
    obtain ⟨fuel, rfl⟩ := Nat.exists_eq_add_of_le' enough
    rw [textOfSizes, List.nil_append, Reader.sizes, stops.strip (by decide)]
  | cons a rest ih =>
    obtain ⟨least, first⟩ := reads a List.mem_cons_self
    obtain ⟨least', others⟩ := ih fun b member => reads b (List.mem_cons_of_mem _ member)
    refine ⟨max least least' + 1, fun fuel enough r stops => ?_⟩
    obtain ⟨fuel, rfl⟩ : ∃ k, fuel = k + 1 := Nat.exists_eq_add_of_le' (by omega)
    have shape : textOfSizes (a :: rest) ++ r = '[' :: (a.text ++ ']' :: (textOfSizes rest ++ r)) := by
      simp [textOfSizes]
    rw [shape, Reader.sizes, strip_same]
    dsimp only [Option.bind_eq_bind]
    rw [first fuel (by omega) _ (stops_cons (by decide) _), Option.bind_some]
    dsimp only
    rw [strip_same, Option.bind_some, others fuel (by omega) r stops]
    rfl

end Lists

theorem reads_send {receiver : Phrase} {name : List Char} {args : List Phrase} (wf : receiver.Wf)
    (minus : receiver.text.head? ≠ some '-') (all : ∀ c ∈ name, isWordChar c = true)
    (reads : receiver.Reads) (wfs : ∀ a ∈ args, a.Wf) (reads' : ∀ a ∈ args, a.Reads) :
    (send receiver name args).Reads := by
  obtain ⟨least, reads⟩ := reads
  obtain ⟨least', found⟩ := arguments_text reads' wfs
  refine ⟨max least least' + 3, fun fuel enough r _ => ?_⟩
  obtain ⟨fuel, rfl⟩ : ∃ k, fuel = k + 3 := Nat.exists_eq_add_of_le' (by omega)
  have first := reads (fuel + 1) (by omega)
    (')' :: '.' :: (name ++ '(' :: (textOfArguments args ++ r))) (stops_cons (by decide) _)
  have shape : (send receiver name args).text ++ r =
      '(' :: (receiver.text ++ ')' :: '.' :: (name ++ '(' :: (textOfArguments args ++ r))) := by
    simp [text]
  rw [shape, phrase_parenthesis, group_first wf minus, first, Option.bind_eq_bind, Option.bind_some]
  dsimp only
  rw [Reader.behind, strip_other (by decide)]
  dsimp only [Option.bind_eq_bind]
  rw [strip_same, Option.bind_some, strip_same, Option.bind_some, takeWord_delimited all (by decide)]
  dsimp only
  rw [strip_same, Option.bind_some, found fuel (by omega)]
  rfl

theorem reads_apply {name : List Char} {args : List Phrase} (isWord : IsWord name)
    (wfs : ∀ a ∈ args, a.Wf) (reads : ∀ a ∈ args, a.Reads) : (apply name args).Reads := by
  obtain ⟨least, found⟩ := arguments_text reads wfs
  refine ⟨least + 1, fun fuel enough r _ => ?_⟩
  obtain ⟨fuel, rfl⟩ : ∃ k, fuel = k + 1 := Nat.exists_eq_add_of_le' (by omega)
  have ends : ∀ c ∈ ('(' :: (textOfArguments args ++ r)).head?, isWordChar c = false := by
    rintro c ⟨⟩
    decide
  rw [text, List.append_assoc, List.cons_append, phrase_word isWord.some' isWord.all ends,
    if_neg isWord.other, strip_same]
  dsimp only
  rw [found fuel (by omega)]
  rfl

theorem phrase_new {type : List Char} (all : ∀ c ∈ type, isWordChar c = true)
    (ends : ∀ c ∈ r.head?, isWordChar c = false) (fuel : Nat) :
    Reader.phrase (fuel + 2) (newWord ++ ' ' :: (type ++ r)) =
      match strip '(' r with
      | some s => (Reader.arguments fuel s).map fun (args, s) => (.create type args, s)
      | none => (Reader.sizes fuel r).map fun (found, s) => (.sized type found, s) := by
  have ends' : ∀ c ∈ (' ' :: (type ++ r)).head?, isWordChar c = false := by
    rintro c ⟨⟩
    decide
  rw [phrase_word (by decide) isWordChar_of_mem_newWord ends', if_pos rfl, Reader.creation, strip_same,
    Option.bind_eq_bind, Option.bind_some, takeWord_append all ends]

theorem reads_create {type : List Char} {args : List Phrase} (all : ∀ c ∈ type, isWordChar c = true)
    (wfs : ∀ a ∈ args, a.Wf) (reads : ∀ a ∈ args, a.Reads) : (create type args).Reads := by
  obtain ⟨least, found⟩ := arguments_text reads wfs
  refine ⟨least + 2, fun fuel enough r _ => ?_⟩
  obtain ⟨fuel, rfl⟩ : ∃ k, fuel = k + 2 := Nat.exists_eq_add_of_le' (by omega)
  have ends : ∀ c ∈ ('(' :: (textOfArguments args ++ r)).head?, isWordChar c = false := by
    rintro c ⟨⟩
    decide
  have shape : (create type args).text ++ r =
      newWord ++ ' ' :: (type ++ '(' :: (textOfArguments args ++ r)) := by
    simp [text]
  rw [shape, phrase_new all ends, strip_same]
  dsimp only
  rw [found fuel (by omega)]
  rfl

theorem reads_sized {type : List Char} {sizes : List Phrase}
    (all : ∀ c ∈ type, isWordChar c = true) (reads : ∀ a ∈ sizes, a.Reads) :
    (sized type sizes).Reads := by
  obtain ⟨least, found⟩ := sizes_text reads
  refine ⟨least + 2, fun fuel enough r stops => ?_⟩
  obtain ⟨fuel, rfl⟩ : ∃ k, fuel = k + 2 := Nat.exists_eq_add_of_le' (by omega)
  have other : strip '(' (textOfSizes sizes ++ r) = none ∧
      ∀ c ∈ (textOfSizes sizes ++ r).head?, isWordChar c = false := by
    cases sizes with
    | nil => exact ⟨stops.strip (by decide), stops.ends⟩
    | cons =>
      refine ⟨strip_other (by decide) _, ?_⟩
      rintro c ⟨⟩
      decide
  have shape : (sized type sizes).text ++ r =
      newWord ++ ' ' :: (type ++ (textOfSizes sizes ++ r)) := by
    simp [text]
  rw [shape, phrase_new all other.2, other.1]
  dsimp only
  rw [found fuel (by omega) r stops]
  rfl

/-- The reader finds every phrase whose parts can be told apart. -/
theorem Wf.reads (wf : p.Wf) : p.Reads := by
  induction wf with
  | word isWord => exact reads_word isWord
  | quoted mark => exact reads_quoted mark _
  | negative minus all => exact reads_negative minus all
  | cast all _ ih => exact reads_cast all ih
  | operation wf minus all _ ih ih' => exact reads_operation wf minus all ih ih'
  | send wf minus all wfs ih ih' => exact reads_send wf minus all ih wfs ih'
  | apply isWord wfs ih => exact reads_apply isWord wfs ih
  | create all wfs ih => exact reads_create all wfs ih
  | sized all _ ih => exact reads_sized all ih

/-- No two phrases have one text. -/
theorem Wf.eq_of_text {q : Phrase} (wf : p.Wf) (wf' : q.Wf) (same : p.text = q.text) : p = q := by
  obtain ⟨least, reads⟩ := wf.reads
  obtain ⟨least', reads'⟩ := wf'.reads
  have stops : Stops [] := fun c none => by contradiction
  have found := reads (max least least') (Nat.le_max_left ..) [] stops
  have found' := reads' (max least least') (Nat.le_max_right ..) [] stops
  rw [same, found'] at found
  exact (Prod.mk.inj (Option.some.inj found)).1.symm

end Phrase
end JavaSmith
