import Mathlib.Data.List.Forall2
import Mathlib.Data.List.Nodup
import Mathlib.Data.List.TakeWhile
import JavaSmith.Knob

/-! What assignments do to the settings. An assignment that is understood gives one knob a value from
its range and leaves the others alone; any other one changes nothing. So of many assignments only the
last one to each knob counts, and assignments to different knobs may be made in any order. -/
namespace JavaSmith

namespace Knob

theorem name_injective : Function.Injective name := by
  have distinct : (all.map name).Nodup := by decide
  intro k k' same
  exact List.inj_on_of_nodup_map distinct (mem_all k) (mem_all k') same

/-- A name as it is compared: without blanks around it, underscores for dashes. -/
def canonical (name : List Char) : List Char :=
  (Text.trimmed name).map fun c => if c = '-' then '_' else c

theorem ofName_eq_ok_iff {s : String} {k : Knob} :
    ofName s = .ok k ↔ canonical s.toList = k.name.toList := by
  have matches_iff (k : Knob) :
      (k.name == String.ofList (canonical s.toList)) = true ↔ canonical s.toList = k.name.toList := by
    rw [beq_iff_eq, ← String.toList_inj, String.toList_ofList, eq_comm]
  unfold ofName
  dsimp only
  split
  · next k' found =>
    have hit := List.find?_some found
    have named := (matches_iff k').1 hit
    simp only [Except.ok.injEq, named, String.toList_inj]
    exact ⟨congrArg name, fun same => name_injective same⟩
  · next missing =>
    have other := List.find?_eq_none.1 missing k (mem_all k)
    simp only [reduceCtorEq, false_iff]
    exact fun named => other ((matches_iff k).2 named)

/-- The value that the last of the assignments to the knob gives it, the second number if there is
none. -/
def lastGiven (k : Knob) (given : List (Knob × Nat)) (value : Nat) : Nat :=
  ((given.filter (·.1 = k)).map Prod.snd).getLastD value

theorem lastGiven_cons (k k' : Knob) (value value' : Nat) (rest : List (Knob × Nat)) :
    k.lastGiven ((k', value') :: rest) value =
      k.lastGiven rest (if k = k' then value' else value) := by
  unfold lastGiven
  by_cases same : k' = k
  · rw [List.filter_cons_of_pos (by simpa using same), List.map_cons, List.getLastD_cons,
      if_pos same.symm]
  · rw [List.filter_cons_of_neg (by simpa using same), if_neg (Ne.symm same)]

end Knob

namespace Knobs

/-- The text gives the knob the value: up to the first equals sign it names the knob, and behind that
it has a number in the knob's range. -/
structure Assigns (text : String) (k : Knob) (value : Nat) : Prop where
  parts : ∃ name given, text.toList = name ++ '=' :: given ∧ '=' ∉ name ∧
    Knob.canonical name = k.name.toList ∧
    Text.unsigned? valueLimit (Text.trimmed given) = some value
  inRange : k.InRange value

variable {knobs knobs' : Knobs} {k : Knob} {value : Nat} {text : String}

/-- What becomes of a step that is to give a knob a value: it asks for one value of one knob and sets
that, or it asks for none and leaves no trace. -/
inductive Outcome (asks : Knob → Nat → Prop) (knobs : Knobs) :
    EStateM.Result Knob.Fault Knobs Unit → Prop where
  | done {k : Knob} {value : Nat} (inside : k.InRange value) :
    (∀ k' value', asks k' value' ↔ k' = k ∧ value' = value) →
      Outcome asks knobs (.ok () (knobs.put k value inside))
  | failed (fault : Knob.Fault) :
    (∀ k value, ¬asks k value) → Outcome asks knobs (.error fault knobs)

theorem Outcome.iff {asks asks' : Knob → Nat → Prop} {r : EStateM.Result Knob.Fault Knobs Unit}
    (h : Outcome asks knobs r) (same : ∀ k value, asks' k value ↔ asks k value) :
    Outcome asks' knobs r := by
  obtain rfl : asks' = asks := funext fun k => funext fun value => propext (same k value)
  exact h

theorem outcome_set (k : Knob) (value : Nat) (knobs : Knobs) :
    Outcome (fun k' value' => k = k' ∧ value = value' ∧ k'.InRange value') knobs
      (set k value knobs) := by
  unfold set
  split
  · next inside =>
    refine .done inside fun k' value' => ⟨?_, ?_⟩
    · exact fun ⟨same, same', _⟩ => ⟨same.symm, same'.symm⟩
    · rintro ⟨rfl, rfl⟩
      exact ⟨rfl, rfl, inside⟩
  · next outside =>
    refine .failed _ fun k' value' asked => outside ?_
    obtain ⟨rfl, rfl, inside⟩ := asked
    exact inside

theorem outcome_give (k : Knob) (given : List Char) (knobs : Knobs) :
    Outcome (fun k' value => k = k' ∧
      Text.unsigned? valueLimit (Text.trimmed given) = some value ∧ k'.InRange value) knobs
      (give k given knobs) := by
  unfold give
  cases number : Text.unsigned? valueLimit (Text.trimmed given) with
  | none => exact .failed _ fun k' value asked => nomatch asked.2.1
  | some value => exact (outcome_set k value knobs).iff fun k' value' => by rw [Option.some.injEq]

theorem split_eq {name given : List Char} (parts : text.toList = name ++ '=' :: given)
    (first : '=' ∉ name) :
    text.toList.takeWhile (· != '=') = name ∧ text.toList.dropWhile (· != '=') = '=' :: given := by
  have before : ∀ c ∈ name, (c != '=') = true := by
    intro c member
    simp only [bne_iff_ne, ne_eq]
    rintro rfl
    exact first member
  rw [parts, List.takeWhile_append_of_pos before, List.dropWhile_append_of_pos before]
  simp

theorem assigns_iff {name given : List Char} (parts : text.toList = name ++ '=' :: given)
    (first : '=' ∉ name) :
    Assigns text k value ↔ Knob.ofName (String.ofList name) = .ok k ∧
      Text.unsigned? valueLimit (Text.trimmed given) = some value ∧ k.InRange value := by
  rw [Knob.ofName_eq_ok_iff, String.toList_ofList]
  constructor
  · rintro ⟨⟨name', given', parts', first', named, number⟩, inside⟩
    obtain ⟨before, behind⟩ := split_eq parts first
    obtain ⟨before', behind'⟩ := split_eq parts' first'
    obtain rfl := before.symm.trans before'
    obtain rfl := (List.cons.inj (behind.symm.trans behind')).2
    exact ⟨named, number, inside⟩
  · rintro ⟨named, number, inside⟩
    exact ⟨⟨name, given, parts, first, named, number⟩, inside⟩

theorem outcome_assign (text : String) (knobs : Knobs) :
    Outcome (Assigns text) knobs (assign text knobs) := by
  by_cases equals : '=' ∈ text.toList
  · obtain ⟨name, given, parts, first⟩ := List.eq_append_cons_of_mem equals
    obtain ⟨before, behind⟩ := split_eq parts first
    unfold assign
    simp only [before, behind]
    cases known : Knob.ofName (String.ofList name) with
    | error fault =>
      refine .failed fault fun k value asked => ?_
      rw [assigns_iff parts first, known] at asked
      exact nomatch asked.1
    | ok k =>
      refine (outcome_give k given knobs).iff fun k' value => ?_
      rw [assigns_iff parts first, known, Except.ok.injEq]
  · have without : text.toList.dropWhile (· != '=') = [] := by
      rw [List.dropWhile_eq_nil_iff]
      intro c member
      simp only [bne_iff_ne, ne_eq]
      rintro rfl
      exact equals member
    unfold assign
    simp only [without]
    refine .failed _ fun k value asked => equals ?_
    obtain ⟨name, given, parts, _⟩ := asked.parts
    rw [parts]
    exact List.mem_append_right name List.mem_cons_self

theorem Assigns.done (h : Assigns text k value) (knobs : Knobs) :
    assign text knobs = .ok () (knobs.put k value h.inRange) := by
  have outcome := outcome_assign text knobs
  generalize assign text knobs = r at outcome ⊢
  cases outcome with
  | done inside asks =>
    obtain ⟨rfl, rfl⟩ := (asks k value).1 h
    rfl
  | failed fault none => exact absurd h (none k value)

/-- Assignments that are all understood are carried out, and every knob has the value that the last one
to it gives. -/
theorem exists_forM_assign {texts : List String} {given : List (Knob × Nat)}
    (all : List.Forall₂ (fun text a => Assigns text a.1 a.2) texts given) (knobs : Knobs) :
    ∃ knobs', forM texts assign knobs = .ok () knobs' ∧
      ∀ k, knobs'.get k = k.lastGiven given (knobs.get k) := by
  induction all generalizing knobs with
  | nil => exact ⟨knobs, rfl, fun k => rfl⟩
  | @cons text a _ _ h _ ih =>
    obtain ⟨knobs', done, last⟩ := ih (knobs.put a.1 a.2 h.inRange)
    rw [List.forM_cons]
    refine ⟨knobs', ?_, fun k => ?_⟩
    · dsimp only [bind, EStateM.bind]
      rw [h.done]
      exact done
    · rw [last, Knob.lastGiven_cons, get_put]

theorem exists_ofAssignments {texts : List String} {given : List (Knob × Nat)}
    (all : List.Forall₂ (fun text a => Assigns text a.1 a.2) texts given) :
    ∃ knobs, ofAssignments texts = .ok knobs ∧
      ∀ k, knobs.get k = k.lastGiven given k.spec.default := by
  obtain ⟨knobs, done, last⟩ := exists_forM_assign all default
  refine ⟨knobs, ?_, fun k => (last k).trans ?_⟩
  · rw [ofAssignments, Step.onCopy, done]
  · rw [get_default]

/-- A call that changes the settings. Values may lie outside the range and texts may be any. -/
inductive Call where
  | set (k : Knob) (value : Nat)
  /-- As `set`, on a copy that takes the place of the settings. -/
  | replace (k : Knob) (value : Nat)
  | assign (text : String)
  deriving DecidableEq

namespace Call

/-- What the step makes of a copy takes the place of the settings. -/
def replacing (step : Step) : Step := fun knobs =>
  match step.onCopy knobs with
  | .ok knobs' => .ok () knobs'
  | .error fault => .error fault knobs

def perform : Call → Step
  | set k value => Knobs.set k value
  | replace k value => replacing (Knobs.set k value)
  | assign text => Knobs.assign text

/-- The call is understood: it asks for a value in the range of the knob. -/
def Asks (k : Knob) (value : Nat) : Call → Prop
  | set k' value' | replace k' value' => k' = k ∧ value' = value ∧ k.InRange value
  | assign text => Assigns text k value

/-- The settings after the call, carried out or failed. -/
def after (knobs : Knobs) (call : Call) : Knobs :=
  match call.perform knobs with
  | .ok _ knobs => knobs
  | .error _ knobs => knobs

def settings (calls : List Call) : Knobs := calls.foldl after default

theorem settings_append_singleton (calls : List Call) (call : Call) :
    settings (calls ++ [call]) = after (settings calls) call := by
  simp [settings]

theorem outcome_replacing {step : Step} {asks : Knob → Nat → Prop}
    (outcome : Outcome asks knobs (step knobs)) : Outcome asks knobs (replacing step knobs) := by
  unfold replacing Step.onCopy
  generalize step knobs = r at outcome
  cases outcome with
  | done inside asks => exact .done inside asks
  | failed fault none => exact .failed fault none

theorem outcome_perform (call : Call) (knobs : Knobs) :
    Outcome (fun k value => call.Asks k value) knobs (call.perform knobs) := by
  cases call with
  | set k value => exact outcome_set k value knobs
  | replace k value => exact outcome_replacing (outcome_set k value knobs)
  | assign text => exact outcome_assign text knobs

/-- One call: it is understood and sets one knob to what it asks for, or it leaves no trace. -/
theorem after_cases (knobs : Knobs) (call : Call) :
    (∃ k value, call.Asks k value ∧ call.perform knobs = .ok () (after knobs call) ∧
      (after knobs call).get k = value ∧
      ∀ k', k' ≠ k → (after knobs call).get k' = knobs.get k') ∨
    ∃ fault, call.perform knobs = .error fault knobs ∧ after knobs call = knobs ∧
      ∀ k value, ¬ call.Asks k value := by
  have outcome := outcome_perform call knobs
  unfold after
  generalize call.perform knobs = r at outcome
  cases outcome with
  | @done k value inside asks =>
    refine .inl ⟨k, value, (asks k value).2 ⟨rfl, rfl⟩, rfl, ?_, fun k' other => ?_⟩
    · simp [get_put]
    · simp [get_put, other]
  | failed fault none => exact .inr ⟨fault, rfl, rfl, none⟩

end Call

/-- Settings are changed by one knob at a time, within its range, or not at all, whatever is asked for.
Assignments that are all understood leave every knob at its last value or at its default, and so do
others that give each knob the same values in the same order. -/
theorem assignments_settle :
    (∀ (calls : List Call) (call : Call),
      (∀ k : Knob, k.spec.least ≤ (Call.settings calls).get k ∧
        (Call.settings calls).get k ≤ k.spec.greatest) ∧
      ((∃ k value, call.Asks k value ∧
          call.perform (Call.settings calls) = .ok () (Call.settings (calls ++ [call])) ∧
          (Call.settings (calls ++ [call])).get k = value ∧
          ∀ k', k' ≠ k →
            (Call.settings (calls ++ [call])).get k' = (Call.settings calls).get k') ∨
        ∃ fault, call.perform (Call.settings calls) = .error fault (Call.settings calls) ∧
          Call.settings (calls ++ [call]) = Call.settings calls ∧
          ∀ k value, ¬ call.Asks k value)) ∧
    ∀ (texts : List String) (given : List (Knob × Nat)),
      List.Forall₂ (fun text a => Assigns text a.1 a.2) texts given →
        (∃ knobs, ofAssignments texts = .ok knobs ∧
          ∀ k, knobs.get k = k.lastGiven given k.spec.default) ∧
        ∀ (texts' : List String) (given' : List (Knob × Nat)),
          List.Forall₂ (fun text a => Assigns text a.1 a.2) texts' given' →
          (∀ k, given'.filter (·.1 = k) = given.filter (·.1 = k)) →
            ofAssignments texts' = ofAssignments texts := by
  constructor
  · intro calls call
    rw [Call.settings_append_singleton]
    exact ⟨(Call.settings calls).inRange, Call.after_cases _ call⟩
  · intro texts given all
    obtain ⟨knobs, settled⟩ := exists_ofAssignments all
    refine ⟨⟨knobs, settled⟩, fun texts' given' all' same => ?_⟩
    obtain ⟨knobs', done, last⟩ := exists_ofAssignments all'
    rw [done, settled.1]
    apply congrArg
    ext k
    rw [last, settled.2, Knob.lastGiven, Knob.lastGiven, same]

/-- Blanks, dashes, a sign and an earlier value of the same knob. -/
theorem three_assignments_settle :
    ∃ knobs, ofAssignments ["print_probability=1", "max-methods = +3 ", "print-probability=007"] =
        .ok knobs ∧ knobs.get .printProbability = 7 ∧ knobs.get .maxMethods = 3 ∧
      ofAssignments ["max_methods=3", "print_probability=1", "print_probability=7"] = .ok knobs := by
  have first : Assigns "print_probability=1" .printProbability 1 :=
    ⟨⟨"print_probability".toList, "1".toList, by decide⟩, by decide⟩
  have methods : Assigns "max-methods = +3 " .maxMethods 3 :=
    ⟨⟨"max-methods ".toList, " +3 ".toList, by decide⟩, by decide⟩
  have last : Assigns "print-probability=007" .printProbability 7 :=
    ⟨⟨"print-probability".toList, "007".toList, by decide⟩, by decide⟩
  have methods' : Assigns "max_methods=3" .maxMethods 3 :=
    ⟨⟨"max_methods".toList, "3".toList, by decide⟩, by decide⟩
  have last' : Assigns "print_probability=7" .printProbability 7 :=
    ⟨⟨"print_probability".toList, "7".toList, by decide⟩, by decide⟩
  have all : List.Forall₂ (fun text a => Assigns text a.1 a.2)
      ["print_probability=1", "max-methods = +3 ", "print-probability=007"]
      [(Knob.printProbability, 1), (.maxMethods, 3), (.printProbability, 7)] :=
    .cons first (.cons methods (.cons last .nil))
  have all' : List.Forall₂ (fun text a => Assigns text a.1 a.2)
      ["max_methods=3", "print_probability=1", "print_probability=7"]
      [(Knob.maxMethods, 3), (.printProbability, 1), (.printProbability, 7)] :=
    .cons methods' (.cons first (.cons last' .nil))
  obtain ⟨⟨knobs, done, settled⟩, same⟩ := assignments_settle.2 _ _ all
  refine ⟨knobs, done, settled .printProbability, settled .maxMethods, ?_⟩
  rw [same _ _ all' fun k => by cases k <;> rfl, done]

end Knobs
end JavaSmith
