import Mathlib.Data.Bool.AllAny
import JavaSmith.Proofs.Denotation
import JavaSmith.Proofs.WellScoped

/-! The text of an expression tells its tree. Every expression of a generated class is written as a
phrase that stands for it, and neither does a text belong to two phrases nor a phrase stand for two
trees. -/
namespace JavaSmith

open Catalog Program

namespace Ty

theorem erased_of_mem_sessionTypes {t : Ty} (h : t ∈ sessionTypes) : t.erased = t := by
  cases t with
  | restricted r => exact absurd rfl (ne_restricted_of_mem_sessionTypes h r)
  | array component n => exact absurd rfl (ne_array_of_mem_sessionTypes h component n)
  | _ => rfl

theorem erased_of_kind? {t : Ty} {k : Kind} (kind : t.kind? = some k) :
    t.erased = .primitive k ∧ t.spelling = k.keyword := by
  cases t with
  | primitive | restricted =>
    cases kind
    exact ⟨rfl, rfl⟩
  | _ => contradiction

theorem Stock.mem_spelling {knobs : Knobs} {t : Ty} (stock : t.Stock knobs) :
    ∀ c ∈ t.spelling.toList, isTypeChar c = true := by
  cases stock with
  | catalogued member => exact fun c inside => (Catalog.mem_spelling member c inside).1
  | restricted r => exact r.base.mem_keyword
  | @array component n member =>
    intro c inside
    rw [spelling, brackets, String.toList_append, String.toList_join, List.mem_append,
      List.mem_flatMap] at inside
    rcases inside with inside | ⟨pair, replicated, inside⟩
    · exact (Catalog.mem_spelling member c inside).1
    · rw [(List.mem_replicate.1 replicated).2] at inside
      have brackets : ∀ c ∈ "[]".toList, isTypeChar c = true := List.all_eq_true.1 (by decide)
      exact brackets c inside

end Ty

namespace Catalog

theorem Prepared.name_letters {c : Catalog} {knobs : Knobs} (prepared : c.Prepared knobs)
    {op : Operation} (h : op ∈ c.operations) : ∀ c ∈ op.name.toList, c.isAlpha = true := by
  have letters : (Library.entries.all fun e => e.name.toList.all Char.isAlpha) = true := by
    decide +kernel
  obtain ⟨_, _, _, e, listed, same⟩ := prepared.operation_known h
  exact same ▸ List.all_eq_true.1 (List.all_eq_true.1 letters e listed)

end Catalog

namespace Tree

/-- A phrase stands for the tree, and the tree is written as the phrase. -/
def Legible (d : Declarations) (t : Tree) : Prop :=
  ∃ p s, Denotes d p t.canonical ∧ t.text = .ok s ∧ s.toList = p.text

structure LegibleAll (d : Declarations) (ts : List Tree) (ps : List Phrase) (ss : List String) :
    Prop where
  length : ps.length = (canonicalAll ts).length
  denotes : ∀ i (h : i < ps.length) (h' : i < (canonicalAll ts).length),
    Denotes d ps[i] (canonicalAll ts)[i]
  texts : textAll ts = .ok ss
  same : ss.map String.toList = ps.map Phrase.text

variable {d : Declarations}

theorem legible_all {ts : List Tree} (h : ∀ t ∈ ts, Legible d t) : ∃ ps ss, LegibleAll d ts ps ss := by
  induction ts with
  | nil => exact ⟨[], [], rfl, fun i none => by contradiction, rfl, rfl⟩
  | cons t rest ih =>
    obtain ⟨p, s, denotes, text, same⟩ := h t List.mem_cons_self
    obtain ⟨ps, ss, all⟩ := ih fun u member => h u (List.mem_cons_of_mem _ member)
    refine ⟨p :: ps, s :: ss, congrArg Nat.succ all.length, fun i h h' => ?_, ?_, ?_⟩
    · cases i with
      | zero => exact denotes
      | succ i => exact all.denotes i (Nat.lt_of_succ_lt_succ h) (Nat.lt_of_succ_lt_succ h')
    · rw [textAll, text, all.texts]
      rfl
    · rw [List.map_cons, List.map_cons, same, all.same]

theorem toList_commaSeparated {ps : List Phrase} {ss : List String}
    (same : ss.map String.toList = ps.map Phrase.text) :
    (commaSeparated ss).toList ++ [')'] = Phrase.textOfArguments ps := by
  have rest (first : Phrase) (ps : List Phrase) :
      [',', ' '].intercalate ((first :: ps).map Phrase.text) ++ [')'] =
        first.text ++ Phrase.textOfRest ps := by
    induction ps generalizing first with
    | nil => simp [Phrase.textOfRest]
    | cons next ps ih =>
      rw [List.map_cons, List.map_cons, List.intercalate_cons_cons, List.append_assoc,
        ← List.map_cons, ih, Phrase.textOfRest]
      simp
  rw [commaSeparated, String.toList_intercalate, same]
  cases ps with
  | nil => rfl
  | cons first ps => exact rest first ps

theorem toList_bracketed {ps : List Phrase} {ss : List String}
    (same : ss.map String.toList = ps.map Phrase.text) :
    (bracketed ss).toList = Phrase.textOfSizes ps := by
  have all : (bracketed ss).toList = (ss.map String.toList).flatMap fun s => '[' :: s ++ [']'] := by
    simp [bracketed, String.toList_join, List.flatMap_map]
  rw [all, same]
  clear all same
  induction ps with
  | nil => rfl
  | cons p ps ih => simp [Phrase.textOfSizes, ← ih]

theorem legible_word {v : Value} {t : Ty} {w : List Char} {s : String} (negative : Bool)
    (canonical : ofValue v = .constant v .void) (word : Word w (.constant v .void))
    (literal : v.literal t = grouped negative s) (spelled : s.toList = w)
    (minus : negative = true ↔ w.head? = some '-') : Legible d (.constant v t) := by
  have written : text (.constant v t) = .ok (grouped negative s) := by rw [text, literal]
  unfold Legible
  rw [Tree.canonical, canonical, written]
  by_cases sign : negative = true
  · refine ⟨.negative w, _, .negative word (minus.1 sign), rfl, ?_⟩
    simp [grouped, sign, spelled, Phrase.text]
  · refine ⟨.word w, _, .word word (mt minus.2 sign), rfl, ?_⟩
    simp [grouped, sign, spelled, Phrase.text]

theorem toList_castText (target operand : String) :
    (castText target operand).toList =
      (Phrase.cast target.toList (.word operand.toList)).text := by
  simp [castText, Phrase.text]

theorem legible_number {v : Value} {t : Ty} {k : Kind} {n : Int32} {s : String}
    (canonical : ofValue v = .castNumber k n) (literal : v.literal t = castText k.keyword s)
    (spelled : s.toList = numeral n.toInt) : Legible d (.constant v t) := by
  refine ⟨.cast k.keyword.toList (.word s.toList), castText k.keyword s, ?_, ?_, ?_⟩
  · rw [Tree.canonical, canonical]
    exact .number rfl spelled
  · rw [text, literal]
  · exact toList_castText ..

theorem floats_legible : ∀ bits ∈ Random.floatPatterns,
    floatText Decimal.binary32 "Float" "f" bits.toNat =
      grouped (Decimal.binary32.isNegative bits.toNat) (Decimal.binary32.text bits.toNat ++ "f") ∧
    (Decimal.binary32.isNegative bits.toNat = true ↔
      (Decimal.binary32.text bits.toNat ++ "f").toList.head? = some '-') :=
  List.all_iff_forall_prop.1 (by decide +kernel)

theorem doubles_legible : ∀ bits ∈ Random.doublePatterns,
    floatText Decimal.binary64 "Double" "d" bits.toNat =
      grouped (Decimal.binary64.isNegative bits.toNat) (Decimal.binary64.text bits.toNat ++ "d") ∧
    (Decimal.binary64.isNegative bits.toNat = true ↔
      (Decimal.binary64.text bits.toNat ++ "d").toList.head? = some '-') :=
  List.all_iff_forall_prop.1 (by decide +kernel)

theorem legible_constant {v : Value} {t : Ty} {knobs : Knobs} (stock : t.Stock knobs)
    (drawn : v.Drawn) : Legible d (.constant v t) := by
  cases v with
  | boolean b =>
    refine legible_word false rfl (.boolean b) rfl rfl ?_
    cases b <;> decide
  | byte n =>
    refine legible_number rfl rfl ?_
    rw [toList_toString_int, Int8.toInt_toInt32]
  | short n =>
    refine legible_number rfl rfl ?_
    rw [toList_toString_int, Int16.toInt_toInt32]
  | char unit =>
    by_cases printable : 32 ≤ unit ∧ unit ≤ 126
    · refine ⟨.quoted quoteMark [Char.ofNat unit.toNat], _, ?_, rfl, ?_⟩
      · rw [canonical, ofValue, if_pos printable]
        exact .char printable rfl rfl
      · rw [Value.literal, charText, if_pos printable, String.toList_ofList, Phrase.text]
        simp
    · refine legible_number (s := toString unit.toNat) (if_neg printable) (if_neg printable) ?_
      have small : unit.toNat < 2 ^ 31 := Nat.lt_trans unit.toNat_lt (by decide)
      rw [toList_toString_nat, Int32.toInt_ofNat_of_lt small]
  | int n =>
    refine legible_word _ rfl (.int n) rfl (toList_toString_int _) ?_
    rw [head?_numeral, decide_eq_true_iff, Int32.lt_iff_toInt_lt]
    rfl
  | long n =>
    refine legible_word _ rfl (.long n) rfl ?_ ?_
    · rw [String.toList_append, toList_toString_int]
      rfl
    · obtain ⟨c, last, _⟩ := exists_getLast?_numeral n.toInt
      have digits : numeral n.toInt ≠ [] := List.getLast?_isSome.1 (Option.isSome_of_eq_some last)
      rw [List.head?_append_of_ne_nil _ digits, head?_numeral, decide_eq_true_iff,
        Int64.lt_iff_toInt_lt]
      rfl
  | float bits =>
    obtain ⟨written, minus⟩ := floats_legible bits drawn
    exact legible_word _ rfl (.float drawn) written (String.toList_append ..) (by simpa using minus)
  | double bits =>
    obtain ⟨written, minus⟩ := doubles_legible bits drawn
    exact legible_word _ rfl (.double drawn) written (String.toList_append ..) (by simpa using minus)
  | string s =>
    refine ⟨.quoted '"' s.toList, _, .string rfl rfl, rfl, ?_⟩
    rw [Value.literal, stringText, String.toList_ofList, Phrase.text]
  | null =>
    refine ⟨.cast t.spelling.toList (.word "null".toList), _, ?_, rfl, toList_castText ..⟩
    exact .null stock.mem_spelling rfl

theorem legible_call {m : MethodId} {args : List Tree} (inside : m < d.methods.size)
    (h : ∀ t ∈ args, Legible d t) : Legible d (.call (d.callee m) args) := by
  obtain ⟨ps, ss, all⟩ := legible_all h
  unfold Legible
  rw [text, all.texts]
  refine ⟨.apply (d.method m).name.toList ps, _, .call inside rfl all.length all.denotes, rfl, ?_⟩
  simp [Declarations.callee, Phrase.text, ← toList_commaSeparated all.same]

theorem legible_onClass {owner : Ty} {name : String} {args : List Tree}
    (member : owner ∈ sessionTypes) (letters : ∀ c ∈ name.toList, c.isAlpha = true)
    (h : ∀ t ∈ args, Legible d t) : Legible d (.call ⟨true, some owner, name, none⟩ args) := by
  obtain ⟨ps, ss, all⟩ := legible_all h
  unfold Legible
  rw [canonical, Callee.erased, Option.map_some, Ty.erased_of_mem_sessionTypes member, text, all.texts]
  refine ⟨.apply (owner.spelling.toList ++ '.' :: name.toList) ps, _,
    .onClass member letters rfl all.length all.denotes, rfl, ?_⟩
  simp [Phrase.text, ← toList_commaSeparated all.same]

theorem legible_send {receiver : Tree} {name : String} {args : List Tree}
    (letters : ∀ c ∈ name.toList, c.isAlpha = true) (first : Legible d receiver)
    (h : ∀ t ∈ args, Legible d t) : Legible d (.send receiver ⟨false, none, name, none⟩ args) := by
  obtain ⟨p, s, target, written, same⟩ := first
  obtain ⟨ps, ss, all⟩ := legible_all h
  unfold Legible
  rw [text, written, all.texts]
  refine ⟨.send p name.toList ps, _, .send letters rfl target all.length all.denotes, rfl, ?_⟩
  simp [Phrase.text, same, ← toList_commaSeparated all.same]

theorem legible_construct {t : Ty} {args : List Tree} (member : t ∈ sessionTypes)
    (h : ∀ t ∈ args, Legible d t) : Legible d (.construct t args) := by
  obtain ⟨ps, ss, all⟩ := legible_all h
  unfold Legible
  rw [canonical, Ty.erased_of_mem_sessionTypes member, text, all.texts]
  refine ⟨.create t.spelling.toList ps, _, .construct member rfl all.length all.denotes, rfl, ?_⟩
  simp [Phrase.text, newWord, ← toList_commaSeparated all.same]

theorem legible_newArray {component : Ty} {n : Nat} {sizes : List Tree}
    (member : component ∈ sessionTypes) (length : sizes.length = n) (h : ∀ t ∈ sizes, Legible d t) :
    Legible d (.newArray (.array component n) sizes) := by
  obtain ⟨ps, ss, all⟩ := legible_all h
  have dimensions : n = ps.length := by
    rw [all.length, canonicalAll_eq_map, List.length_map, length]
  unfold Legible
  rw [canonical, Ty.erased, Ty.erased_of_mem_sessionTypes member, dimensions, text, all.texts]
  refine ⟨.sized component.spelling.toList ps, _, .newArray member rfl all.length all.denotes, rfl, ?_⟩
  simp [Phrase.text, newWord, toList_bracketed all.same]

theorem legible_cast {t : Ty} {k : Kind} {operand : Tree} (kind : t.kind? = some k)
    (h : Legible d operand) : Legible d (.cast t operand) := by
  obtain ⟨p, s, denotes, written, same⟩ := h
  obtain ⟨erased, spelled⟩ := Ty.erased_of_kind? kind
  unfold Legible
  rw [canonical, erased, text, written, spelled]
  refine ⟨.cast k.keyword.toList p, _, .cast rfl denotes, rfl, ?_⟩
  simp [castText, Phrase.text, same]

theorem legible_binary {op : Operator} {left right : Tree} (h : Legible d left)
    (h' : Legible d right) : Legible d (.binary op left right) := by
  obtain ⟨p, s, denotes, written, same⟩ := h
  obtain ⟨p', s', denotes', written', same'⟩ := h'
  unfold Legible
  rw [text, written, written']
  refine ⟨.operation p op.symbol.toList p', _, .binary rfl denotes denotes', rfl, ?_⟩
  simp [Phrase.text, same, same']

theorem legible_assign {v : Var} {source : Tree} (h : Legible d source) :
    Legible d (.assign v source) := by
  obtain ⟨p, s, denotes, written, same⟩ := h
  unfold Legible
  rw [text, written]
  refine ⟨.operation (.word v.name.toList) ['='] p, _, .assign rfl rfl denotes, rfl, ?_⟩
  simp [Phrase.text, same]

/-- Trees with the same text are the same as far as it tells. -/
theorem Legible.canonical_eq {t u : Tree} (orderly : d.Orderly) (first : Legible d t)
    (second : Legible d u) (same : t.text = u.text) : t.canonical = u.canonical := by
  obtain ⟨p, s, denotes, written, spelled⟩ := first
  obtain ⟨q, s', denotes', written', spelled'⟩ := second
  rw [written, written'] at same
  have texts : p.text = q.text := by rw [← spelled, ← spelled', Except.ok.inj same]
  obtain rfl := (denotes.wf orderly).eq_of_text (denotes'.wf orderly) texts
  exact denotes.functional orderly _ denotes'

end Tree

namespace Program

variable {c : Catalog} {p : Program}

theorem Sound.legible (sound : p.Sound c) (prepared : c.Prepared p.knobs)
    (stocked : p.Stocked p.knobs) {e : ExprId} (inside : e < p.arena.size) :
    (p.tree e).Legible p.declared := by
  induction e using Nat.strongRecOn with
  | ind e ih =>
    have below {o : ExprId} (before : o < e) :
        Tree.Legible p.declared (if _h : o < e then p.tree o else .hole) := by
      rw [dif_pos before]
      exact ih o before (Nat.lt_trans before inside)
    have all {os : List ExprId} (before : ∀ o ∈ os, o < e) :
        ∀ t ∈ os.map (fun o => if _h : o < e then p.tree o else .hole), Tree.Legible p.declared t := by
      intro t member
      obtain ⟨o, operand, rfl⟩ := List.mem_map.1 member
      exact below (before o operand)
    obtain ⟨stock, genuine⟩ := stocked.node inside
    have typed := sound.typed e inside
    rw [tree]
    generalize p.node e = node at typed genuine
    generalize p.typeOf e = t at typed stock ⊢
    cases typed with
    | constant => exact Tree.legible_constant stock genuine
    | @read v =>
      exact ⟨.word v.name.toList, _, .word (.read v) v.head?_name, rfl, rfl⟩
    | assign _ _ _ before _ => exact Tree.legible_assign (below before)
    | @call m isStatic name _ _ known given _ =>
      obtain ⟨_, same⟩ := genuine m rfl
      rw [same]
      exact Tree.legible_call known (all given.before)
    | boxing given =>
      exact Tree.legible_onClass (boxed_mem_sessionTypes _) (List.all_eq_true.1 (by decide))
        (all given.before)
    | onClass member _ given =>
      exact Tree.legible_onClass (prepared.operation_known member).1 (prepared.name_letters member)
        (all given.before)
    | onObject member _ given =>
      exact Tree.legible_send (prepared.name_letters member)
        (below (given.before _ List.mem_cons_self))
        (all fun o member => given.before o (List.mem_cons_of_mem _ member))
    | construct offered given =>
      have member : t ∈ sessionTypes := by
        cases stock with
        | catalogued member => exact member
        | restricted | array => simp [ownBuilders] at offered
      exact Tree.legible_construct member (all given.before)
    | @newArray component n sizes _ given =>
      have length : n = sizes.length := by simpa using given.length_eq
      have count : (sizes.map fun o => if _h : o < e then p.tree o else .hole).length = sizes.length :=
        List.length_map _
      have member : component ∈ sessionTypes := by
        cases stock with
        | catalogued member => exact absurd rfl (ne_array_of_mem_sessionTypes member _ _)
        | array member _ => exact member
      exact Tree.legible_newArray member (count.trans length.symm) (all given.before)
    | cast before numeric _ =>
      obtain ⟨k, kind, _⟩ := (Option.any_eq_true _ _).1 numeric
      exact Tree.legible_cast kind (below before)
    | concat before before' _ _ => exact Tree.legible_binary (below before) (below before')
    | binary _ before before' _ _ _ _ => exact Tree.legible_binary (below before) (below before')

end Program

theorem Generated.legible {c : Catalog} {p : Program} {seed : UInt64} {config : Config}
    (generated : Generated c seed config p) {e : ExprId} (inside : e < p.exprCount) :
    (p.tree e).Legible p.declared := by
  have settings := generated.knobs
  refine generated.sound.legible ?_ ?_ inside
  · exact settings ▸ generated.prepared
  · exact settings ▸ generated.stocked

/-- In classes with the same declarations, whatever else they hold, a text is that of one tree only, as
far as it tells. -/
theorem generated_text_unambiguous {catalog catalog' c c' : Catalog} {seed seed' : UInt64}
    {config config' : Config} {p q : Program} (first : generateWith catalog seed config = .ok (p, c))
    (second : generateWith catalog' seed' config' = .ok (q, c')) (same : p.declared = q.declared)
    {e e' : ExprId} (inside : e < p.exprCount) (inside' : e' < q.exprCount) {s : String}
    (text : (p.tree e).text = .ok s) (text' : (q.tree e').text = .ok s) :
    (p.tree e).canonical = (q.tree e').canonical := by
  have generated := generated_of_eq_ok first
  have generated' := generated_of_eq_ok second
  have legible := generated.legible inside
  have legible' := generated'.legible inside'
  rw [← same] at legible'
  exact legible.canonical_eq generated.orderly legible' (text.trans text'.symm)

/-- The entry, of the cost, is all that is declared. -/
def Declarations.Alone (d : Declarations) (cost : Nat) : Prop :=
  d.fields.size = 0 ∧ d.locals.size = 0 ∧ d.methods.toList.map Method.cost = [cost] ∧
    d.calls.callees = #[[]] ∧ d.calls.excluded = #[[entryId]]

instance (d : Declarations) (cost : Nat) : Decidable (d.Alone cost) := by
  unfold Declarations.Alone
  infer_instance

theorem Generated.methods_of_alone {c : Catalog} {p : Program} {seed : UInt64} {config : Config}
    (generated : Generated c seed config p) {cost : Nat} (alone : p.declared.Alone cost) :
    p.declared.methods.toList =
      Declarations.empty.addEntry.methods.toList.map fun m => { m with cost } := by
  obtain ⟨length, body, q, _, run, rfl⟩ := generated.run
  have h := run.extends.trans (q.extends_closeEntry body)
  obtain ⟨m, only, cost'⟩ := List.map_eq_singleton_iff.1 alone.2.2.1
  have fixed := h.methodRecords.eq_of_length (by rw [only]; rfl)
  rw [only] at fixed ⊢
  obtain ⟨_, _, _, _, _, _⟩ := m
  cases cost'
  cases (List.cons.inj fixed).1
  rfl

theorem Generated.declared_eq {c c' : Catalog} {p q : Program} {seed seed' : UInt64}
    {config config' : Config} (generated : Generated c seed config p)
    (generated' : Generated c' seed' config' q) {cost : Nat} (alone : p.declared.Alone cost)
    (alone' : q.declared.Alone cost) : p.declared = q.declared := by
  have methods := Array.toList_inj.1
    ((generated.methods_of_alone alone).trans (generated'.methods_of_alone alone').symm)
  obtain ⟨fields, locals, _, callees, excluded⟩ := alone
  obtain ⟨fields', locals', _, callees', excluded'⟩ := alone'
  have record (d : Declarations) :
      d = ⟨d.fields, d.locals, d.methods, ⟨d.calls.callees, d.calls.excluded⟩⟩ := rfl
  rw [record p.declared, record q.declared, methods, callees, callees', excluded, excluded',
    Array.eq_empty_of_size_eq_zero fields, Array.eq_empty_of_size_eq_zero fields',
    Array.eq_empty_of_size_eq_zero locals, Array.eq_empty_of_size_eq_zero locals']

/-- One print of calls, casts and operators in a class without anything else. -/
def onePrint : Config where
  className := "T"
  knobs := .ofValues (fun
    | .printProbability => 100
    | .binaryOpProbability | .castProbability => 60
    | .externalCallProbability => 30
    | .stateReuseProbability | .maxMethods | .methodCallProbability => 0
    | .maxProgramLength => 1
    | .maxExpressionDepth => 2
    | k => k.spec.default) fun k => by cases k <;> decide

def Program.Shows (p : Program) (e size : Nat) (text : String) : Prop :=
  p.declared.Alone 2 ∧ e < p.exprCount ∧ (p.tree e).nodeCount = size ∧ (p.tree e).text = .ok text

instance (p : Program) (e size : Nat) (text : String) : Decidable (p.Shows e size text) :=
  decidable_of_iff (p.declared.Alone 2 ∧ e < p.exprCount ∧ (p.tree e).nodeCount = size ∧
    (p.tree e).text.toOption = some text) <| by
      unfold Program.Shows
      cases (p.tree e).text <;> simp [Except.toOption]

theorem exists_shows (seed : UInt64) (e size : Nat) (text : String)
    (evaluated : (generateWith .new seed onePrint).toOption.any
      (fun made => decide (made.1.Shows e size text)) = true) :
    ∃ p c, generateWith .new seed onePrint = .ok (p, c) ∧ p.Shows e size text := by
  obtain ⟨p, c, done, _⟩ := generateWith_ok .new seed onePrint
  rw [done] at evaluated
  exact ⟨p, c, done, of_decide_eq_true evaluated⟩

set_option maxRecDepth 100000 in
/-- A short number as the argument of a call, a constant in one class and cast in the other; and as the
argument of another call a quotient whose divisor is cast. -/
theorem arguments_unambiguous :
    (∃ p q c c', generateWith .new 86 onePrint = .ok (p, c) ∧
      generateWith .new 17458 onePrint = .ok (q, c') ∧ p.declared = q.declared ∧
      p.Shows 1 2 "Short.valueOf(((short) 1))" ∧ q.Shows 2 3 "Short.valueOf(((short) 1))" ∧
      (p.tree 1).canonical = (q.tree 2).canonical) ∧
    ∃ p q c c', generateWith .new 8 onePrint = .ok (p, c) ∧
      generateWith .new 20881 onePrint = .ok (q, c') ∧ p.declared = q.declared ∧
      p.Shows 4 5 "Long.valueOf((9223372036854775807L / ((long) 10)))" ∧
      q.Shows 4 5 "Long.valueOf((9223372036854775807L / ((long) 10)))" ∧
      (p.tree 4).canonical = (q.tree 4).canonical := by
  have agree {p q : Program} {c c' : Catalog} {seed seed' : UInt64} {e e' size size' : Nat} {s : String}
      (done : generateWith .new seed onePrint = .ok (p, c))
      (done' : generateWith .new seed' onePrint = .ok (q, c')) (told : p.Shows e size s)
      (told' : q.Shows e' size' s) :
      p.declared = q.declared ∧ (p.tree e).canonical = (q.tree e').canonical := by
    obtain ⟨alone, inside, _, text⟩ := told
    obtain ⟨alone', inside', _, text'⟩ := told'
    have same := (generated_of_eq_ok done).declared_eq (generated_of_eq_ok done') alone alone'
    exact ⟨same, generated_text_unambiguous done done' same inside inside' text text'⟩
  constructor
  · obtain ⟨p, c, done, told⟩ :=
      exists_shows 86 1 2 "Short.valueOf(((short) 1))" (by decide +kernel)
    obtain ⟨q, c', done', told'⟩ :=
      exists_shows 17458 2 3 "Short.valueOf(((short) 1))" (by decide +kernel)
    obtain ⟨same, equal⟩ := agree done done' told told'
    exact ⟨p, q, c, c', done, done', same, told, told', equal⟩
  · obtain ⟨p, c, done, told⟩ :=
      exists_shows 8 4 5 "Long.valueOf((9223372036854775807L / ((long) 10)))" (by decide +kernel)
    obtain ⟨q, c', done', told'⟩ :=
      exists_shows 20881 4 5 "Long.valueOf((9223372036854775807L / ((long) 10)))" (by decide +kernel)
    obtain ⟨same, equal⟩ := agree done done' told told'
    exact ⟨p, q, c, c', done, done', same, told, told', equal⟩

end JavaSmith
