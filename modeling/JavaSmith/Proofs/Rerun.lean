import JavaSmith.CommandLine
import JavaSmith.Proofs.Generation
import JavaSmith.Proofs.Settings

/-! The command that is written above a class. Split at its spaces and read as arguments it asks for the
seed, the name and the settings that the class was made from, so carrying it out prints the class
again. -/
namespace JavaSmith

namespace Text

theorem trimmed_of_notBlank {cs : List Char} (solid : ∀ c ∈ cs, isBlank c = false) :
    trimmed cs = cs := by
  have kept {l : List Char} (solid : ∀ c ∈ l, isBlank c = false) : l.dropWhile isBlank = l := by
    cases l with
    | nil => rfl
    | cons c rest => exact List.dropWhile_cons_of_neg (by simp [solid c])
  unfold trimmed
  rw [kept solid, kept fun c member => solid c (List.mem_reverse.1 member), List.reverse_reverse]

theorem isBlank_of_isDigit {c : Char} (digit : c.isDigit = true) : isBlank c = false := by
  simp only [Char.isDigit, Bool.and_eq_true, decide_eq_true_eq, ge_iff_le, UInt32.le_iff_toNat_le]
    at digit
  have range : 48 ≤ c.toNat ∧ c.toNat ≤ 57 := digit
  simp only [isBlank, Bool.or_eq_false_iff, Bool.and_eq_false_iff, beq_eq_false_iff_ne,
    decide_eq_false_iff_not]
  omega

theorem unsigned?_toDigits {limit n : Nat} (below : n < limit) :
    unsigned? limit (Nat.toDigits 10 n) = some n := by
  have digits : ∀ c ∈ Nat.toDigits 10 n, c.isDigit = true := fun c member =>
    Nat.isDigit_of_mem_toDigits (by decide) (by decide) member
  have value : digits? (Nat.toDigits 10 n) = some (Nat.ofDigitChars 10 (Nat.toDigits 10 n) 0) := by
    unfold digits?
    rw [if_neg (by simpa [Nat.toDigits_ne_nil] using digits)]
    rfl
  unfold unsigned?
  dsimp only
  split
  · next rest signed =>
    have plus : '+' ∈ Nat.toDigits 10 n := by simp [signed]
    exact absurd (digits _ plus) (by decide)
  · rw [value, Nat.ofDigitChars_ten_toDigits]
    simp [Option.filter, below]

end Text

namespace CommandLine

/-- Characters that identifiers begin with. Beyond ASCII every character is admitted, letters or not,
as no such character has a meaning on the command line. -/
def isIdentifierStart (c : Char) : Bool :=
  c.isAlpha || c == '_' || c == '$' || 128 ≤ c.toNat

def isIdentifierPart (c : Char) : Bool :=
  isIdentifierStart c || c.isDigit || c.toNat ≤ 8 || (14 ≤ c.toNat && c.toNat ≤ 27) || c.toNat == 127

def isIdentifier (name : String) : Bool :=
  match name.toList with
  | [] => false
  | first :: rest => isIdentifierStart first && rest.all isIdentifierPart

theorem space_notMem_of_isIdentifier {name : String} (h : isIdentifier name = true) :
    ' ' ∉ name.toList := by
  unfold isIdentifier at h
  split at h
  · contradiction
  · next first rest chars =>
    rw [Bool.and_eq_true, List.all_eq_true] at h
    rw [chars, List.mem_cons]
    rintro (rfl | member)
    · exact absurd h.1 (by decide)
    · exact absurd (h.2 _ member) (by decide)

/-! Arguments. -/

theorem Token.of_eq_plain {arg : String} (other : arg.toList.head? ≠ some '-') :
    Token.of arg = .plain arg.toList := by
  unfold Token.of
  split
  · next chars => simp [chars] at other
  · next chars => simp [chars] at other
  · next chars => simp [chars] at other
  · rfl

theorem Token.of_isIdentifier {name : String} (h : isIdentifier name = true) :
    Token.of name = .plain name.toList := by
  apply of_eq_plain
  unfold isIdentifier at h
  split at h
  · contradiction
  · next first rest chars =>
    rw [Bool.and_eq_true] at h
    simp only [chars, List.head?_cons, ne_eq, Option.some.injEq]
    rintro rfl
    exact absurd h.1 (by decide)

theorem readRequest_option {r : Request} {fuel : Nat} {arg value : String} {rest : List String}
    {name : List Char} (opt : Opt) (long : Token.of arg = .long name none)
    (other : name ≠ "version".toList) (known : Opt.ofLong? name = some opt)
    (plain : Token.of value = .plain value.toList) :
    readRequest r (fuel + 1) (arg :: value :: rest) =
      (r.accept? opt value.toList).bind fun r => readRequest r fuel rest := by
  have asked : isVersion (.long name none) = false := by
    rw [isVersion, beq_eq_false_iff_ne]
    exact other
  rw [readRequest]
  simp only [long, asked, Bool.false_eq_true, if_false, optionOf?, known, Option.map_some, plain?,
    plain, bind, Option.bind_some]

theorem readRequest_knobs {texts : List String}
    (plain : ∀ text ∈ texts, Token.of text = .plain text.toList) {fuel : Nat}
    (enough : texts.length ≤ fuel) (r : Request) :
    readRequest r fuel (texts.flatMap fun text => ["--knob", text]) =
      some (.generate { r with knobs := r.knobs ++ texts }) := by
  induction texts generalizing fuel r with
  | nil => cases fuel <;> simp [readRequest]
  | cons text rest ih =>
    obtain ⟨fuel, rfl⟩ : ∃ n, fuel = n + 1 := ⟨fuel - 1, by simp at enough; omega⟩
    have enough : rest.length ≤ fuel := by simpa using enough
    have first := plain text List.mem_cons_self
    have others := ih (fun text member => plain text (List.mem_cons_of_mem _ member)) enough
    rw [List.flatMap_cons]
    change readRequest r (fuel + 1) ("--knob" :: text :: _) = _
    rw [readRequest_option .knob rfl (by decide) rfl first]
    simp [Request.accept?, others]

theorem intercalate_cons (w : List Char) (ws : List (List Char)) :
    [' '].intercalate (w :: ws) = w ++ ws.flatMap fun w => ' ' :: w := by
  induction ws generalizing w with
  | nil => simp [List.intercalate]
  | cons w' rest ih => simp [List.intercalate_cons_cons, ih]

def words (text : String) : List String := (text.toList.splitOn ' ').map String.ofList

theorem words_intercalate {ws : List String} (some' : ws ≠ []) (free : ∀ w ∈ ws, ' ' ∉ w.toList)
    {text : String} (joined : text.toList = [' '].intercalate (ws.map String.toList)) :
    words text = ws := by
  unfold words
  rw [joined, List.splitOn_intercalate]
  · simp
  · simpa using free
  · simpa using some'

end CommandLine

namespace Knobs

def assignmentText (k : Knob) (value : Nat) : String := s!"{k.name}={value}"

theorem toList_assignmentText (k : Knob) (value : Nat) :
    (assignmentText k value).toList = k.name.toList ++ '=' :: Nat.toDigits 10 value := by
  simp [assignmentText, toString, String.toList_append]

theorem name_chars (k : Knob) :
    ∀ c ∈ k.name.toList, Text.isBlank c = false ∧ c ≠ '=' ∧ c ≠ '-' ∧ c ≠ ' ' := by
  have all : (Knob.all.all fun k => k.name.toList.all fun c => !Text.isBlank c && c != '=' &&
      c != '-' && c != ' ') = true := by decide +kernel
  intro c member
  have char := List.all_eq_true.1 (List.all_eq_true.1 all k (Knob.mem_all k)) c member
  simpa [and_assoc] using char

theorem assignmentText_chars (k : Knob) (value : Nat) :
    ∀ c ∈ (assignmentText k value).toList, c ≠ '-' ∧ c ≠ ' ' := by
  intro c member
  rw [toList_assignmentText, List.mem_append, List.mem_cons] at member
  rcases member with name | rfl | digit
  · exact (name_chars k c name).2.2
  · decide
  · have digit := Nat.isDigit_of_mem_toDigits (by decide) (by decide) digit
    constructor <;> rintro rfl <;> exact absurd digit (by decide)

theorem canonical_name (k : Knob) : Knob.canonical k.name.toList = k.name.toList := by
  unfold Knob.canonical
  rw [Text.trimmed_of_notBlank fun c member => (name_chars k c member).1]
  have same : ∀ c ∈ k.name.toList, (if c = '-' then '_' else c) = id c := fun c member =>
    if_neg (name_chars k c member).2.2.1
  rw [List.map_congr_left same, List.map_id]

theorem lt_valueLimit {k : Knob} {value : Nat} (inside : k.InRange value) : value < valueLimit := by
  have all : ∀ k ∈ Knob.all, k.spec.greatest < valueLimit := by decide
  exact Nat.lt_of_le_of_lt inside.2 (all k (Knob.mem_all k))

theorem assigns_assignmentText {k : Knob} {value : Nat} (inside : k.InRange value) :
    Assigns (assignmentText k value) k value where
  parts := by
    refine ⟨_, _, toList_assignmentText k value, ?_, canonical_name k, ?_⟩
    · exact fun equals => (name_chars k _ equals).2.1 rfl
    · rw [Text.trimmed_of_notBlank, Text.unsigned?_toDigits (lt_valueLimit inside)]
      intro c member
      exact Text.isBlank_of_isDigit (Nat.isDigit_of_mem_toDigits (by decide) (by decide) member)
  inRange := inside

end Knobs

theorem Knob.lastGiven_eq {k : Knob} {given : List (Knob × Nat)} {value start : Nat}
    (only : ∀ a ∈ given, a.1 = k → a.2 = value) (given' : start = value ∨ (k, value) ∈ given) :
    k.lastGiven given start = value := by
  induction given generalizing start with
  | nil => simpa [lastGiven] using given'
  | cons a rest ih =>
    rw [lastGiven_cons]
    apply ih fun a member => only a (List.mem_cons_of_mem _ member)
    split
    · next same => exact .inl (only a List.mem_cons_self same.symm)
    · next other =>
      refine given'.imp_right fun member => ?_
      rcases List.mem_cons.1 member with rfl | later
      · exact absurd rfl other
      · exact later

namespace Knobs

theorem mem_changed {knobs : Knobs} {k : Knob} {value : Nat} :
    (k, value) ∈ knobs.changed ↔ knobs.get k ≠ k.spec.default ∧ knobs.get k = value := by
  unfold changed
  rw [List.mem_filterMap]
  constructor
  · rintro ⟨k', _, made⟩
    split at made
    · contradiction
    · next differs =>
      cases made
      exact ⟨differs, rfl⟩
  · rintro ⟨differs, rfl⟩
    exact ⟨k, Knob.mem_all k, if_neg differs⟩

/-- The knobs that differ from their defaults tell the settings. -/
theorem lastGiven_changed (knobs : Knobs) (k : Knob) :
    k.lastGiven knobs.changed k.spec.default = knobs.get k := by
  apply Knob.lastGiven_eq
  · rintro ⟨k', value⟩ member rfl
    exact (mem_changed.1 member).2.symm
  · by_cases same : knobs.get k = k.spec.default
    · exact .inl same.symm
    · exact .inr (mem_changed.2 ⟨same, rfl⟩)

theorem ofAssignments_changed (knobs : Knobs) :
    ofAssignments (knobs.changed.map fun a => assignmentText a.1 a.2) = .ok knobs := by
  have all : List.Forall₂ (fun text a => Assigns text a.1 a.2)
      (knobs.changed.map fun a => assignmentText a.1 a.2) knobs.changed := by
    rw [List.forall₂_map_left_iff, List.forall₂_same]
    rintro ⟨k, value⟩ member
    obtain ⟨_, rfl⟩ := mem_changed.1 member
    exact assigns_assignmentText (knobs.inRange k)
  obtain ⟨knobs', done, last⟩ := exists_ofAssignments all
  rw [done]
  apply congrArg
  ext k
  exact (last k).trans (lastGiven_changed knobs k)

end Knobs

namespace CommandLine

theorem Request.source_eq {r : Request} {knobs : Knobs}
    (settings : Knobs.ofAssignments r.knobs = .ok knobs) (chosenSeed : UInt64) :
    r.source chosenSeed = (JavaSmith.generate (r.seed.getD chosenSeed)
      ⟨r.className.getD Config.default.className, knobs⟩).bind Program.source := by
  unfold source
  rw [settings]
  rfl

end CommandLine

/-! The command of a class. -/

namespace Program

open CommandLine

def assignments (p : Program) : List String :=
  p.knobs.changed.map fun a => Knobs.assignmentText a.1 a.2

def rerunRequest (p : Program) : Request := ⟨some p.seed, some p.className, p.assignments, none⟩

def rerunArguments (p : Program) : List String :=
  ["generate", "--seed", toString p.seed, "--class-name", p.className] ++
    p.assignments.flatMap fun text => ["--knob", text]

theorem toList_rerunCommand (p : Program) :
    p.rerunCommand.toList =
      [' '].intercalate ((programName :: p.rerunArguments).map String.toList) := by
  have options (l : List (Knob × Nat)) :
      (String.join (l.map fun a => s!" --knob {a.1.name}={a.2}")).toList =
        (l.flatMap fun a => ["--knob", Knobs.assignmentText a.1 a.2]).flatMap
          fun w => ' ' :: w.toList := by
    rw [String.toList_join, List.flatMap_map, List.flatMap_assoc]
    apply List.flatMap_congr
    intro a _
    simp [toString, Knobs.toList_assignmentText, String.toList_append]
  unfold rerunCommand
  rw [List.map_cons, intercalate_cons, String.toList_append, options]
  simp [rerunArguments, assignments, programName, List.flatMap_map, toString, String.toList_append]

theorem toList_toString_seed (seed : UInt64) :
    (toString seed).toList = Nat.toDigits 10 seed.toNat := Nat.toList_repr

theorem words_rerunCommand {p : Program} (named : isIdentifier p.className = true) :
    words p.rerunCommand = programName :: p.rerunArguments := by
  apply words_intercalate (by simp) _ p.toList_rerunCommand
  intro w member
  simp only [rerunArguments, assignments, List.cons_append, List.nil_append, List.mem_cons,
    List.mem_flatMap, List.mem_map, List.not_mem_nil, or_false] at member
  rcases member with rfl | rfl | rfl | rfl | rfl | rfl | ⟨_, ⟨a, _, rfl⟩, rfl | rfl⟩
  · decide
  · decide
  · decide
  · intro space
    rw [toList_toString_seed] at space
    exact absurd (Nat.isDigit_of_mem_toDigits (by decide) (by decide) space) (by decide)
  · decide
  · exact space_notMem_of_isIdentifier named
  · decide
  · exact fun space => (Knobs.assignmentText_chars a.1 a.2 _ space).2 rfl

theorem read?_rerunArguments {p : Program} (named : isIdentifier p.className = true) :
    read? p.rerunArguments = some (.generate p.rerunRequest) := by
  have seed : Token.of (toString p.seed) = .plain (toString p.seed).toList := by
    apply Token.of_eq_plain
    rw [toList_toString_seed]
    intro dash
    have digit := Nat.isDigit_of_mem_toDigits (by decide) (by decide) (List.mem_of_mem_head? dash)
    exact absurd digit (by decide)
  have number : Text.unsigned? UInt64.size (toString p.seed).toList = some p.seed.toNat := by
    rw [toList_toString_seed, Text.unsigned?_toDigits p.seed.toNat_lt]
  have plain : ∀ text ∈ p.assignments, Token.of text = .plain text.toList := by
    intro text member
    obtain ⟨⟨k, value⟩, _, rfl⟩ := List.mem_map.1 member
    apply Token.of_eq_plain
    intro dash
    exact (Knobs.assignmentText_chars k value _ (List.mem_of_mem_head? dash)).1 rfl
  have generate : isVersion (Token.of "generate") = false := rfl
  unfold rerunArguments
  simp only [List.cons_append, List.nil_append, read?, generate, Bool.false_eq_true, if_false,
    if_true, List.length_cons]
  rw [readRequest_option .seed rfl (by decide) rfl seed]
  simp only [Request.accept?, number, UInt64.ofNat_toNat, Option.bind_some]
  rw [readRequest_option .className rfl (by decide) rfl (Token.of_isIdentifier named)]
  simp only [Request.accept?, Option.isSome_none, Bool.false_eq_true, if_false, String.ofList_toList,
    Option.bind_some]
  rw [readRequest_knobs plain]
  · simp [rerunRequest]
  · simp [List.length_flatMap]
    omega

end Program

theorem exists_generated (seed : UInt64) (config : Config) :
    ∃ p c, generate seed config = .ok p ∧ Generated c seed config p := by
  obtain ⟨p, c, done, generated⟩ := generateWith_ok .new seed config
  refine ⟨p, c, ?_, generated⟩
  unfold generate
  rw [done]
  rfl

/-- A generated class knows what it was made from. -/
theorem Generated.origin {c : Catalog} {seed : UInt64} {config : Config} {p : Program}
    (generated : Generated c seed config p) : p.seed = seed ∧ ⟨p.className, p.knobs⟩ = config := by
  obtain ⟨length, body, q, _, run, rfl⟩ := generated.run
  have h := run.extends.trans (q.extends_closeEntry body)
  exact ⟨h.seed, congrArg₂ Config.mk h.className h.knobs⟩

namespace CommandLine

/-- The command of a class, split at its spaces, asks for the seed, the name and the settings of the
class, and prints what they generate: the class itself, if it was generated. -/
theorem rerun_restores (p : Program) (named : isIdentifier p.className = true) :
    ∃ args r q text, words p.rerunCommand = programName :: args ∧
      read? args = some (.generate r) ∧ r.seed = some p.seed ∧ r.className = some p.className ∧
      Knobs.ofAssignments r.knobs = .ok p.knobs ∧ r.output = none ∧
      generate p.seed ⟨p.className, p.knobs⟩ = .ok q ∧ q.source = .ok text ∧
      (∀ chosenSeed, run args chosenSeed = .printed (text ++ "\n")) ∧
      ∀ seed config, generate seed config = .ok p → q = p := by
  obtain ⟨q, c, done, generated⟩ := exists_generated p.seed ⟨p.className, p.knobs⟩
  obtain ⟨text, written⟩ := generated.sound.source_ok generated.roots_entry
  have asked := p.read?_rerunArguments named
  have settings : Knobs.ofAssignments p.assignments = .ok p.knobs := p.knobs.ofAssignments_changed
  refine ⟨p.rerunArguments, p.rerunRequest, q, text, p.words_rerunCommand named, asked, rfl, rfl,
    settings, rfl, done, written, fun chosenSeed => ?_, fun seed config made => ?_⟩
  · have source : p.rerunRequest.source chosenSeed = .ok text := by
      rw [Request.source_eq (r := p.rerunRequest) settings]
      change (generate p.seed ⟨p.className, p.knobs⟩).bind Program.source = _
      rw [done]
      exact written
    unfold run
    rw [asked]
    simp only [Command.run, source]
    rfl
  · obtain ⟨p', c', made', generated'⟩ := exists_generated seed config
    obtain rfl : p' = p := Except.ok.inj (made'.symm.trans made)
    obtain ⟨rfl, rfl⟩ := generated'.origin
    exact Except.ok.inj (done.symm.trans made)

/-- The greatest seed, a dollar sign in the name, and two knobs off their defaults. -/
theorem dollar_rerun_restores :
    let knobs := (Knobs.default.put .maxMethods 3 (by decide)).put .printProbability 100 (by decide)
    let p := Program.new "Fuzz$1" 18446744073709551615 knobs
    isIdentifier "Fuzz$1" = true ∧
      ∃ args r q text, words p.rerunCommand = programName :: args ∧
        read? args = some (.generate r) ∧ r.seed = some 18446744073709551615 ∧
        r.className = some "Fuzz$1" ∧ Knobs.ofAssignments r.knobs = .ok knobs ∧
        generate 18446744073709551615 ⟨"Fuzz$1", knobs⟩ = .ok q ∧ q.source = .ok text ∧
        ∀ chosenSeed, run args chosenSeed = .printed (text ++ "\n") := by
  intro knobs p
  have named : isIdentifier p.className = true := by decide
  obtain ⟨args, r, q, text, split, asked, seed, name, settings, -, done, written, printed, -⟩ :=
    rerun_restores p named
  exact ⟨named, args, r, q, text, split, asked, seed, name, settings, done, written, printed⟩

end CommandLine

end JavaSmith
