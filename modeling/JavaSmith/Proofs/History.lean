import JavaSmith.Generator.Draft
import JavaSmith.Proofs.CallGraph

/-! Histories of a class: methods are declared and calls recorded, in any order. After every step the
methods excluded for calling are known exactly, so a call is refused only where it has to be. -/
namespace JavaSmith

inductive MethodEvent where
  | declare (modifiers : Modifiers) (params : List Ty) (returns : Ty)
  | declareEntry
  | record (caller callee : MethodId)

namespace Declarations

def Admits (d : Declarations) : MethodEvent → Prop
  | .record caller callee => caller < d.methods.size ∧ callee < d.methods.size
  | _ => True

/-- The declarations after an event; those before it where a call is refused. -/
def after (d : Declarations) : MethodEvent → Declarations
  | .declare modifiers params returns => d.addMethod modifiers params returns
  | .declareEntry => d.addEntry
  | .record caller callee =>
    match d.addCallEdge caller callee with
    | .ok recorded => recorded
    | .error _ => d

inductive HasHistory : Declarations → Prop where
  | start : HasHistory .empty
  | next {d : Declarations} {event : MethodEvent} :
    HasHistory d → d.Admits event → HasHistory (d.after event)

/-- Every method has its place in the call graph, and the graph is exact. -/
structure Tracks (d : Declarations) : Prop where
  exact : d.calls.Exact
  sizes : d.calls.size = d.methods.size

theorem tracks_empty : empty.Tracks := ⟨CallGraph.exact_empty, rfl⟩

theorem Tracks.appendMethod {d : Declarations} (tracks : d.Tracks) (m : Method) :
    (d.appendMethod m).Tracks where
  exact := tracks.exact.addMethod
  sizes := by
    change d.calls.addMethod.size = (d.methods.push m).size
    rw [CallGraph.size_addMethod, Array.size_push, tracks.sizes]

/-- A call is recorded unless the entry is called, a static method calls one that is not, or a cycle
would be closed. Nothing but the graph changes. -/
theorem addCallEdge_eq_ok_iff {d d' : Declarations} {caller callee : MethodId} :
    d.addCallEdge caller callee = .ok d' ↔
      (d.method callee).isEntry = false ∧
      ((d.method caller).isStatic = true → (d.method callee).isStatic = true) ∧
      ∃ g, d.calls.addEdge? caller callee = some g ∧ d' = { d with calls := g } := by
  unfold addCallEdge
  dsimp only
  split
  · next entry => simp [entry]
  · next entry =>
    rw [Bool.not_eq_true] at entry
    split
    · next mixed =>
      rw [Bool.and_eq_true, Bool.not_eq_true'] at mixed
      simp [mixed.1, mixed.2]
    · next unmixed =>
      have static : (d.method caller).isStatic = true → (d.method callee).isStatic = true := by
        simpa using unmixed
      split
      · next refused => simp [refused]
      · next g added =>
        rw [Except.ok.injEq]
        constructor
        · rintro rfl
          exact ⟨entry, static, g, added, rfl⟩
        · rintro ⟨_, _, g', added', rfl⟩
          rw [Option.some.inj (added.symm.trans added')]

theorem Tracks.addCallEdge {d d' : Declarations} {caller callee : MethodId} (tracks : d.Tracks)
    (h : caller < d.methods.size) (h' : callee < d.methods.size)
    (recorded : d.addCallEdge caller callee = .ok d') : d'.Tracks := by
  obtain ⟨_, _, g, added, rfl⟩ := addCallEdge_eq_ok_iff.1 recorded
  rw [← tracks.sizes] at h h'
  exact ⟨tracks.exact.addEdge? h h' added, (CallGraph.size_addEdge? added).trans tracks.sizes⟩

theorem Tracks.after {d : Declarations} {event : MethodEvent} (tracks : d.Tracks)
    (admitted : d.Admits event) : (d.after event).Tracks := by
  cases event with
  | declare modifiers params returns => exact tracks.appendMethod _
  | declareEntry => exact tracks.appendMethod _
  | record caller callee =>
    unfold Declarations.after
    dsimp only
    split
    · next recorded => exact tracks.addCallEdge admitted.1 admitted.2 recorded
    · exact tracks

theorem HasHistory.tracks {d : Declarations} (history : d.HasHistory) : d.Tracks := by
  induction history with
  | start => exact tracks_empty
  | next _ admitted ih => exact ih.after admitted

/-- Calls that must not be recorded: of the entry, from a static method of one that is not static, and
of a method that reaches the caller. -/
def Forbids (d : Declarations) (caller callee : MethodId) : Prop :=
  (d.method callee).isEntry = true ∨
  (d.method caller).isStatic = true ∧ (d.method callee).isStatic = false ∨
  callee = caller ∨ d.calls.Reaches callee caller

theorem Tracks.exists_addCallEdge_iff {d : Declarations} (tracks : d.Tracks) {caller : MethodId}
    (h : caller < d.methods.size) (callee : MethodId) :
    (∃ d', d.addCallEdge caller callee = .ok d') ↔ ¬d.Forbids caller callee := by
  rw [← tracks.sizes] at h
  have closes : d.calls.addEdge? caller callee = none ↔ d.calls.Reaches callee caller :=
    tracks.exact.addEdge?_eq_none_iff h
  constructor
  · rintro ⟨d', recorded⟩
    obtain ⟨entry, static, g, added, _⟩ := addCallEdge_eq_ok_iff.1 recorded
    have open' : ¬d.calls.Reaches callee caller := by
      rw [← closes, added]
      exact Option.some_ne_none g
    rintro (called | ⟨fromStatic, notStatic⟩ | same | path)
    · rw [entry] at called
      contradiction
    · rw [static fromStatic] at notStatic
      contradiction
    · exact open' (same ▸ .refl)
    · exact open' path
  · intro free
    unfold Forbids at free
    push Not at free
    obtain ⟨entry, static, _, open'⟩ := free
    obtain ⟨g, added⟩ := Option.ne_none_iff_exists'.1 (mt closes.1 open')
    exact ⟨_, addCallEdge_eq_ok_iff.2
      ⟨Bool.not_eq_true _ ▸ entry, fun h => by simpa using static h, g, added, rfl⟩⟩

/-- A forbidden call leaves everything as it was, any other changes the graph and nothing else. -/
theorem Tracks.addCallEdge_outcome {s : Draft} (tracks : s.program.declared.Tracks)
    {caller callee : MethodId} (h : caller < s.program.declared.methods.size) :
    (s.program.declared.Forbids caller callee ∧
      ∃ fault, Gen.addCallEdge caller callee s = .error fault s) ∨
    (¬s.program.declared.Forbids caller callee ∧
      ∃ g, s.program.declared.calls.addEdge? caller callee = some g ∧
        Gen.addCallEdge caller callee s = .ok () { s with program.declared.calls := g }) := by
  have records := tracks.exists_addCallEdge_iff h callee
  unfold Gen.addCallEdge
  cases recorded : s.program.declared.addCallEdge caller callee with
  | error breach =>
    rw [recorded] at records
    refine .inl ⟨?_, _, rfl⟩
    by_contra free
    obtain ⟨d', contrary⟩ := records.2 free
    contradiction
  | ok declared =>
    obtain ⟨_, _, g, added, rfl⟩ := addCallEdge_eq_ok_iff.1 recorded
    exact .inr ⟨records.1 ⟨_, recorded⟩, g, added, rfl⟩

/-- The checks of a call depend on nothing that changes later, so recorded calls still pass them. -/
structure Checked (d : Declarations) : Prop where
  notEntry : ∀ a b, d.calls.Calls a b → (d.method b).isEntry = false
  static : ∀ a b, d.calls.Calls a b → (d.method a).isStatic = true → (d.method b).isStatic = true

theorem checked_empty : empty.Checked :=
  ⟨fun _ _ call => absurd (CallGraph.lt_size_of_calls call) (Nat.not_lt_zero _),
    fun _ _ call => absurd (CallGraph.lt_size_of_calls call) (Nat.not_lt_zero _)⟩

theorem method_appendMethod {d : Declarations} (m : Method) {a : MethodId}
    (inside : a < d.methods.size) : (d.appendMethod m).method a = d.method a := by
  simp [appendMethod, method, Array.getElem?_push, Nat.ne_of_lt inside]

theorem Checked.appendMethod {d : Declarations} (checked : d.Checked) (tracks : d.Tracks) (m : Method) :
    (d.appendMethod m).Checked := by
  have old {a b : MethodId} (call : (d.appendMethod m).calls.Calls a b) :
      d.calls.Calls a b ∧ a < d.methods.size ∧ b < d.methods.size := by
    have call : d.calls.Calls a b := CallGraph.calls_addMethod d.calls ▸ call
    rw [← tracks.sizes]
    exact ⟨call, CallGraph.lt_size_of_calls call, tracks.exact.inside a b call⟩
  refine ⟨fun a b call => ?_, fun a b call => ?_⟩
  · obtain ⟨call, _, inside⟩ := old call
    rw [method_appendMethod m inside]
    exact checked.notEntry a b call
  · obtain ⟨call, inside, inside'⟩ := old call
    rw [method_appendMethod m inside, method_appendMethod m inside']
    exact checked.static a b call

theorem Checked.addCallEdge {d d' : Declarations} (checked : d.Checked) (tracks : d.Tracks)
    {caller callee : MethodId} (h : caller < d.methods.size)
    (recorded : d.addCallEdge caller callee = .ok d') : d'.Checked := by
  obtain ⟨entry, static, g, added, rfl⟩ := addCallEdge_eq_ok_iff.1 recorded
  have inside : caller < d.calls.size := tracks.sizes ▸ h
  refine ⟨fun a b call => ?_, fun a b call => ?_⟩
  all_goals rcases (CallGraph.calls_addEdge? inside added).1 call with old | ⟨rfl, rfl⟩
  · exact checked.notEntry a b old
  · exact entry
  · exact checked.static a b old
  · exact static

theorem HasHistory.checked {d : Declarations} (history : d.HasHistory) : d.Checked := by
  induction history with
  | start => exact checked_empty
  | @next d event past admitted ih =>
    cases event with
    | declare | declareEntry => exact ih.appendMethod past.tracks _
    | record caller callee =>
      unfold Declarations.after
      dsimp only
      split
      · next recorded => exact ih.addCallEdge past.tracks admitted.1 recorded
      · exact ih

theorem Checked.addCallEdge_of_calls {s : Draft} (checked : s.program.declared.Checked)
    (tracks : s.program.declared.Tracks) {caller callee : MethodId}
    (call : s.program.declared.calls.Calls caller callee) :
    Gen.addCallEdge caller callee s = .ok () s := by
  have again : s.program.declared.addCallEdge caller callee = .ok s.program.declared :=
    addCallEdge_eq_ok_iff.2 ⟨checked.notEntry _ _ call, checked.static _ _ call, _,
      tracks.exact.addEdge?_of_calls call, rfl⟩
  unfold Gen.addCallEdge
  rw [again]
  rfl

end Declarations

open Declarations

/-- After any history the excluded methods are the ancestors, the calls form no cycle, and for any
two methods the graph refuses a further call exactly if it is to the caller itself or to a method
that reaches the caller. A call that is refused changes nothing; one that is recorded adds its edge
alone, after finitely many turns of the loop that hands the excluded methods down. One that is there
already is never refused and changes nothing. -/
theorem excluded_exact_after_history {d : Declarations} (history : d.HasHistory) :
    (∀ m < d.methods.size,
      (∀ k, k ∈ d.calls.excludedFor m ↔ d.calls.Reaches k m) ∧
      d.calls.excludedFor m = d.calls.ancestors m) ∧
    d.calls.Acyclic ∧
    ∀ caller < d.methods.size, ∀ callee < d.methods.size,
      (d.calls.addEdge? caller callee = none ↔
        callee = caller ∨ d.calls.Reaches callee caller) ∧
      (d.calls.Calls caller callee → d.calls.addEdge? caller callee = some d.calls) ∧
      (∀ g, d.calls.addEdge? caller callee = some g →
        g.size = d.calls.size ∧
        (∀ a b, g.Calls a b ↔ d.calls.Calls a b ∨ a = caller ∧ b = callee) ∧
        (¬d.calls.Calls caller callee →
          ∃ turns, (CallGraph.handStep g.callees (d.calls.excludedFor caller))^[turns]
            (d.calls.excluded, [callee]) = (g.excluded, []))) ∧
      (∀ s : Draft, s.program.declared = d →
        ((d.Forbids caller callee ∧ ∃ fault, Gen.addCallEdge caller callee s = .error fault s) ∨
        (¬d.Forbids caller callee ∧ ∃ g, d.calls.addEdge? caller callee = some g ∧
          Gen.addCallEdge caller callee s = .ok () { s with program.declared.calls := g })) ∧
        (d.calls.Calls caller callee → Gen.addCallEdge caller callee s = .ok () s)) := by
  have tracks := history.tracks
  have exact := tracks.exact
  refine ⟨fun m h => ?_, exact.acyclic, fun caller h callee h' => ⟨?_, ?_, ?_, ?_⟩⟩
  · rw [← tracks.sizes] at h
    exact ⟨exact.mem_excluded m h, exact.excludedFor_eq h⟩
  · rw [exact.addEdge?_eq_none_iff (tracks.sizes ▸ h)]
    refine ⟨.inr, ?_⟩
    rintro (rfl | path)
    · exact .refl
    · exact path
  · exact exact.addEdge?_of_calls
  · intro g added
    rw [← tracks.sizes] at h
    refine ⟨CallGraph.size_addEdge? added, fun a b => CallGraph.calls_addEdge? h added, ?_⟩
    intro new
    rw [CallGraph.eq_link_of_addEdge? added new]
    exact CallGraph.exists_iterate_handStep ..
  · rintro s rfl
    exact ⟨tracks.addCallEdge_outcome h, history.checked.addCallEdge_of_calls tracks⟩

/-- Two methods, the first of which calls the second; the call back is refused. -/
theorem refused_after_two_methods_and_call :
    let d := (((empty.after (.declare .none [] .void)).after (.declare .none [] .void)).after
      (.record 0 1))
    d.HasHistory ∧ d.calls.addEdge? 1 0 = none := by
  intro d
  have history : d.HasHistory := by
    refine .next (.next (.next .start trivial) trivial) ?_
    exact ⟨by decide, by decide⟩
  refine ⟨history, ?_⟩
  have size : d.methods.size = 2 := by rfl
  have called : d.calls.Calls 0 1 := by decide
  have exact := excluded_exact_after_history history
  rw [(exact.2.2 1 (by omega) 0 (by omega)).1]
  exact .inr (.single called)

end JavaSmith
