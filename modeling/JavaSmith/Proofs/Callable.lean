import JavaSmith.Proofs.Changes

/-! Which methods are drawn to be called. The filter that draws them and the checks that record a call
are written apart; on every class that declarations lead to they agree, so what is drawn can be
recorded, nothing that could be recorded is missed, and drawing and recording in turn never fails and
never closes a cycle. -/
namespace JavaSmith

open JavaSmith.Random

namespace Declarations

variable {d d' : Declarations} {caller m : MethodId}

theorem Tracks.mem_callable_iff (tracks : d.Tracks) (h : caller < d.methods.size) :
    m ∈ d.callable caller ↔
      m < d.methods.size ∧ ∃ d', d.addCallEdge caller m = .ok d' := by
  rw [mem_callable, tracks.exists_addCallEdge_iff h,
    tracks.exact.mem_excluded caller (tracks.sizes ▸ h)]
  unfold Forbids
  cases (d.method m).isEntry <;> cases (d.method caller).isStatic <;>
    cases (d.method m).isStatic <;> simp

/-- A draw finds the accepted methods to which a call can be recorded. -/
theorem Tracks.finds_randomCallable (tracks : d.Tracks) (h : caller < d.methods.size)
    (accepts : Method → Bool) :
    Finds (d.randomCallable caller accepts) fun m =>
      m < d.methods.size ∧ accepts (d.method m) = true ∧
        ∃ d', d.addCallEdge caller m = .ok d' := by
  refine .of_always ((always_randomCallable d caller accepts).mono fun o ⟨found, lost⟩ => ?_)
  constructor
  · intro m given
    obtain ⟨member, accepted⟩ := found m given
    obtain ⟨inside, recorded⟩ := (tracks.mem_callable_iff h).1 member
    exact ⟨inside, accepted, recorded⟩
  · rintro none m ⟨inside, accepted, recorded⟩
    rw [lost none m ((tracks.mem_callable_iff h).2 ⟨inside, recorded⟩)] at accepted
    contradiction

/-- For each request a callee is drawn for the caller, among those that are accepted, and the call is
recorded; where none is found the next request follows. -/
def recordDrawn (d : Declarations) :
    List (MethodId × (Method → Bool)) → Draw (Except Breach Declarations)
  | [] => return .ok d
  | (caller, accepts) :: rest => do
    match ← d.randomCallable caller accepts with
    | none => d.recordDrawn rest
    | some callee =>
      match d.addCallEdge caller callee with
      | .error breach => return .error breach
      | .ok d' => d'.recordDrawn rest

theorem methods_addCallEdge {callee : MethodId} (recorded : d.addCallEdge caller callee = .ok d') :
    d'.methods = d.methods := by
  obtain ⟨_, _, g, _, rfl⟩ := addCallEdge_eq_ok_iff.1 recorded
  rfl

theorem Tracks.always_recordDrawn {requests : List (MethodId × (Method → Bool))} (tracks : d.Tracks)
    (known : ∀ r ∈ requests, r.1 < d.methods.size) :
    Always (d.recordDrawn requests) fun o => ∃ d', o = .ok d' ∧ d'.Tracks := by
  -- each recorded call gives other declarations, of which the same holds
  induction requests generalizing d with
  | nil => exact Always.pure ⟨d, rfl, tracks⟩
  | cons first rest ih =>
    obtain ⟨caller, accepts⟩ := first
    have h : caller < d.methods.size := known _ List.mem_cons_self
    have later : ∀ r ∈ rest, r.1 < d.methods.size := fun r member => known r (.tail _ member)
    refine Always.bind (tracks.finds_randomCallable h accepts) ?_
    rintro (_ | callee) ⟨found, _⟩
    · exact ih tracks later
    · obtain ⟨inside, _, d', recorded⟩ := found callee rfl
      dsimp only
      rw [recorded]
      exact ih (tracks.addCallEdge h inside recorded) (methods_addCallEdge recorded ▸ later)

end Declarations

open Declarations

/-- On every class that declarations lead to, a draw for a caller finds exactly the accepted methods to
which a call can be recorded; refused are calls of the entry, from a static method of one that is
not, and of methods that reach the caller, and no others. So whatever callees are drawn and recorded
in turn, for whichever callers, no recording fails and the calls form no cycle. -/
theorem randomCallable_exact {d : Declarations} (reachable : d.Reachable) {caller : MethodId}
    (h : caller < d.methods.size) :
    (∀ accepts : Method → Bool,
      Finds (d.randomCallable caller accepts) fun m =>
        m < d.methods.size ∧ accepts (d.method m) = true ∧
          ∃ d', d.addCallEdge caller m = .ok d') ∧
    (∀ m, (∃ d', d.addCallEdge caller m = .ok d') ↔
      ¬((d.method m).isEntry = true ∨
        ((d.method caller).isStatic = true ∧ (d.method m).isStatic = false) ∨
        d.calls.Reaches m caller)) ∧
    (∀ requests : List (MethodId × (Method → Bool)), (∀ r ∈ requests, r.1 < d.methods.size) →
      Always (d.recordDrawn requests) fun o => ∃ d', o = .ok d' ∧ d'.calls.Acyclic) := by
  have tracks := reachable.tracks
  refine ⟨tracks.finds_randomCallable h, fun m => ?_, fun requests known => ?_⟩
  · rw [tracks.exists_addCallEdge_iff h]
    have itself : m = caller ∨ d.calls.Reaches m caller ↔ d.calls.Reaches m caller :=
      ⟨fun | .inl same => same ▸ .refl | .inr path => path, .inr⟩
    unfold Forbids
    rw [itself]
  · refine (tracks.always_recordDrawn known).mono ?_
    rintro _ ⟨d', rfl, tracks'⟩
    exact ⟨d', rfl, tracks'.exact.acyclic⟩

/-- Of two methods the first can call the second alone, so that one is drawn for it every time. -/
theorem randomCallable_of_two_methods :
    let d := (empty.addMethod .none [] .void).addMethod .none [] .void
    d.Reachable ∧ 0 < d.methods.size ∧ Always (d.randomCallable 0 fun _ => true) (· = some 1) := by
  intro d
  have reachable : d.Reachable :=
    .change (.change .empty (c := .method .none [] .void) trivial rfl)
      (c := .method .none [] .void) trivial rfl
  have inside : 0 < d.methods.size := by decide
  obtain ⟨draws, records, _⟩ := randomCallable_exact reachable inside
  have free : d.calls.calleesOf 1 = [] := by decide
  have recorded : ∃ d', d.addCallEdge 0 1 = .ok d' := by
    rw [records]
    rintro (entry | static | path)
    · contradiction
    · exact absurd static.1 (by decide)
    · obtain ⟨m, called, _⟩ := path.cases_head.resolve_left (by decide)
      have none : m ∈ d.calls.calleesOf 1 := called
      rw [free] at none
      contradiction
  refine ⟨reachable, inside, (draws fun _ => true).mono ?_⟩
  rintro (_ | m) ⟨found, lost⟩
  · exact absurd ⟨by decide, rfl, recorded⟩ (lost.1 rfl 1)
  · obtain ⟨below, _, callable⟩ := found m rfl
    have other : m ≠ 0 := by
      rintro rfl
      exact (records 0).1 callable (.inr (.inr .refl))
    have two : m < 2 := below
    exact congrArg some (Nat.le_antisymm (Nat.le_of_lt_succ two) (Nat.pos_of_ne_zero other))

end JavaSmith
