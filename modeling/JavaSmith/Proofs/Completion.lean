import JavaSmith.Proofs.Nesting
import JavaSmith.Proofs.RunSound

/-! Calls, and the beginning and the end of a method. A callable method is complete, since those that
are not are callers of the current one; a new method has no calls of its own yet; and when it is
complete, all that it calls stands before it. -/
namespace JavaSmith

open Program Relation

variable {site : Site} {m : MethodId} {wanted : Option Ty} {p p₀ q : Program} {body : Block}

namespace Program

theorem Nested.mem_completed (nested : p.Nested m) {k : MethodId}
    (callable : k ∈ p.declared.callable m) : k ∈ p.completed := by
  obtain ⟨inside, _, _, open', _⟩ := Declarations.mem_callable.1 callable
  by_contra incomplete
  have tracks := nested.ordered.tracks
  have known : m < p.declared.calls.size := tracks.sizes ▸ nested.writes.known
  exact open' ((tracks.exact.mem_excluded m known k).2 (nested.writes.ancestors k inside incomplete))

theorem Nested.addCallEdge (nested : p.Nested m) (before : Proceeds m p₀ p) {k : MethodId}
    {d : Declarations} (callable : k ∈ p.declared.callable m)
    (recorded : p.declared.addCallEdge m k = .ok d) :
    (p.withDeclared d).Nested m ∧ Proceeds m p₀ (p.withDeclared d) ∧ d.calls.Calls m k := by
  obtain ⟨ordered, writes⟩ := nested
  have complete := Nested.mem_completed ⟨ordered, writes⟩ callable
  have inside := (Declarations.mem_callable.1 callable).1
  have later := extends_addCallEdge recorded
  have tracks := ordered.tracks.addCallEdge writes.known inside recorded
  obtain ⟨notEntry, _, g, added, rfl⟩ := Declarations.addCallEdge_eq_ok_iff.1 recorded
  have calls {a b : MethodId} := CallGraph.calls_addEdge? (a := a) (b := b)
    (ordered.tracks.sizes ▸ writes.known) added
  refine ⟨⟨?_, ?_⟩, before.trans ?_, calls.2 (.inr ⟨rfl, rfl⟩)⟩
  · refine { ordered with
      tracks := tracks, grounded := ordered.grounded.of_arena rfl, entryUncalled := ?_,
      fields := ?_, bodies := ?_, calleesFirst := ?_ }
    · intro a call
      rcases calls.1 call with old | ⟨_, rfl⟩
      · exact ordered.entryUncalled a old
      · rw [(ordered.entry _ inside).2 rfl] at notEntry
        contradiction
    · exact fun f member => (ordered.fields f member).later ordered.grounded later
    · exact fun f member => (ordered.bodies f member).later ordered.grounded later
    · intro a member b call
      rcases calls.1 call with old | ⟨rfl, _⟩
      · exact ordered.calleesFirst a member b old
      · exact absurd member writes.incomplete
  · refine { writes with ancestors := ?_, callees := ?_ }
    · exact fun a below open' => ReflTransGen.mono later.calls _ _ (writes.ancestors a below open')
    · intro b call
      rcases calls.1 call with old | ⟨_, rfl⟩
      · exact writes.callees b old
      · exact complete
  · refine ⟨later, fun a _ other b call => ?_, fun a below new => ?_, fun a member => .inl member⟩
    · exact (calls.1 call).resolve_right fun same => other same.1
    · exact absurd new (Nat.not_le_of_lt below)

end Program

namespace Opening

theorem size_program (o : Opening site m wanted p) :
    o.program.declared.methods.size = p.declared.methods.size + 1 := by
  rw [Opening.program, (sameMethods_addParameters _ _).size]
  obtain ⟨_, _, g, _, declared⟩ := Declarations.addCallEdge_eq_ok_iff.1 o.recorded
  simp [withDeclared, declared, Declarations.addMethod, Declarations.appendMethod]

theorem completed_program (o : Opening site m wanted p) : o.program.completed = p.completed :=
  (sameMethods_addParameters (p.withDeclared o.declared) o.params).completed

theorem tracks_program (o : Opening site m wanted p) (tracks : p.declared.Tracks)
    (known : m < p.declared.methods.size) : o.program.declared.Tracks := by
  have size : (p.declared.addMethod ⟨false, true, o.isStatic, false⟩ o.params
      o.returns).methods.size = p.declared.methods.size + 1 := by
    simp [Declarations.addMethod, Declarations.appendMethod]
  have recorded := (tracks.appendMethod _).addCallEdge (size ▸ Nat.lt_succ_of_lt known)
    (size ▸ Nat.lt_succ_self _) o.recorded
  have same := sameMethods_addParameters (p.withDeclared o.declared) o.params
  exact ⟨same.calls ▸ recorded.exact, by rw [Opening.program, same.calls, same.size]; exact recorded.sizes⟩

theorem calls_program (o : Opening site m wanted p) (tracks : p.declared.Tracks)
    (known : m < p.declared.methods.size) {a b : MethodId} :
    o.program.declared.calls.Calls a b ↔
      p.declared.calls.Calls a b ∨ a = m ∧ b = o.method := by
  have same := sameMethods_addParameters (p.withDeclared o.declared) o.params
  rw [Opening.program, same.calls]
  obtain ⟨_, _, g, added, declared⟩ := Declarations.addCallEdge_eq_ok_iff.1 o.recorded
  have inside : m < p.declared.calls.addMethod.size := by
    rw [CallGraph.size_addMethod, tracks.sizes]
    exact Nat.lt_succ_of_lt known
  have calls := CallGraph.calls_addEdge? (a := a) (b := b) inside added
  rw [CallGraph.calls_addMethod] at calls
  rw [withDeclared, declared]
  exact calls

theorem entry_program (o : Opening site m wanted p) (ordered : p.Ordered)
    (known : m < p.declared.methods.size) :
    o.method ≠ entryId ∧ ∀ k < o.program.declared.methods.size,
      (o.program.declared.method k).isEntry = true ↔ k = entryId := by
  have later : o.method ≠ entryId := Nat.ne_of_gt (Nat.lt_of_le_of_lt (Nat.zero_le m) known)
  refine ⟨later, fun k below => ?_⟩
  rw [o.size_program] at below
  rcases Nat.lt_or_eq_of_le (Nat.le_of_lt_succ below) with old | rfl
  · rw [o.extends.isEntry old]
    exact ordered.entry k old
  · have notEntry : (o.program.declared.method o.method).isEntry = false :=
      (congrArg Method.isEntry o.record.2 :)
    exact ⟨fun isEntry => absurd (notEntry.symm.trans isEntry) Bool.noConfusion,
      fun first => absurd first later⟩

theorem ordered_program (o : Opening site m wanted p) (nested : p.Nested m) :
    o.program.Ordered := by
  obtain ⟨ordered, writes⟩ := nested
  obtain ⟨later, entry⟩ := o.entry_program ordered writes.known
  have calls {a b : MethodId} := o.calls_program ordered.tracks writes.known (a := a) (b := b)
  refine ⟨o.tracks_program ordered.tracks writes.known,
    ordered.grounded.of_arena (arena_addParameters _ _), entry, ?_, ?_, ?_, ?_, ?_, ?_⟩
  · intro a call
    rcases calls.1 call with old | ⟨_, first⟩
    · exact ordered.entryUncalled a old
    · exact later first.symm
  · intro f member
    have kept : o.program.fields = p.fields := fields_addParameters _ _
    rw [kept] at member
    exact (ordered.fields f member).later ordered.grounded o.extends
  · intro d member
    have kept : o.program.methods = p.methods :=
      (sameMethods_addParameters (p.withDeclared o.declared) o.params).methods
    rw [kept] at member
    exact (ordered.bodies d member).later ordered.grounded o.extends
  · intro a member
    rw [o.completed_program] at member
    rw [o.size_program]
    exact Nat.lt_succ_of_lt (ordered.known a member)
  · rw [o.completed_program]
    exact ordered.once
  · rw [o.completed_program]
    intro a member b call
    rcases calls.1 call with old | ⟨rfl, _⟩
    · exact ordered.calleesFirst a member b old
    · exact absurd member writes.incomplete

theorem writes_program (o : Opening site m wanted p) (nested : p.Nested m) :
    o.program.Writes o.method := by
  obtain ⟨ordered, writes⟩ := nested
  have calls {a b : MethodId} := o.calls_program ordered.tracks writes.known (a := a) (b := b)
  refine ⟨o.record.1, ?_, ?_, ?_⟩
  · rw [o.completed_program]
    exact fun member => absurd (ordered.known _ member) (Nat.lt_irrefl _)
  · intro a below open'
    rw [o.completed_program] at open'
    rw [o.size_program] at below
    rcases Nat.lt_or_eq_of_le (Nat.le_of_lt_succ below) with old | rfl
    · have path := ReflTransGen.mono o.extends.calls _ _ (writes.ancestors a old open')
      exact path.tail (calls.2 (.inr ⟨rfl, rfl⟩))
    · exact .refl
  · intro b call
    rcases calls.1 call with old | ⟨same, _⟩
    · have inside := CallGraph.lt_size_of_calls old
      rw [ordered.tracks.sizes] at inside
      exact absurd inside (Nat.lt_irrefl _)
    · have : p.declared.methods.size = m := same
      exact absurd writes.known (this ▸ Nat.lt_irrefl _)

theorem nested_program (o : Opening site m wanted p) (nested : p.Nested m) :
    o.program.Nested o.method :=
  ⟨o.ordered_program nested, o.writes_program nested⟩

end Opening

namespace Program

theorem Nested.calleesFirst (nested : p.Nested m) :
    ∀ a ∈ p.completed ++ [m], ∀ b, p.declared.calls.Calls a b →
      [b, a].Sublist (p.completed ++ [m]) := by
  intro a member b call
  rcases List.mem_append.1 member with complete | current
  · exact (nested.ordered.calleesFirst a complete b call).trans (List.sublist_append_left ..)
  · obtain rfl := List.mem_singleton.1 current
    have complete := nested.writes.callees b call
    exact (List.singleton_sublist.2 complete).append (List.Sublist.refl [a])

theorem Nested.once (nested : p.Nested m) : (p.completed ++ [m]).Nodup := by
  rw [List.nodup_append]
  refine ⟨nested.ordered.once, List.nodup_singleton m, ?_⟩
  rintro a complete b current rfl
  exact nested.writes.incomplete (List.mem_singleton.1 current ▸ complete)

theorem completed_closeMethod (p : Program) (m : MethodId) (params : List LocalId) (body : Block) :
    (p.closeMethod m params body).completed = p.completed ++ [m] := by
  simp [completed, closeMethod, addBody, recordCost]

theorem size_closeMethod (p : Program) (m : MethodId) (params : List LocalId) (body : Block) :
    (p.closeMethod m params body).declared.methods.size = p.declared.methods.size := by
  simp [closeMethod, addBody, recordCost, Declarations.setCost]

theorem Nested.ordered_closeMethod (nested : p.Nested m) (params : List LocalId)
    (recorded : p.RecordedIn (some m) body) : (p.closeMethod m params body).Ordered := by
  have ordered := nested.ordered
  have later := p.extends_closeMethod m params body
  have size := p.size_closeMethod m params body
  refine ⟨⟨ordered.tracks.exact, ordered.tracks.sizes.trans size.symm⟩,
    ordered.grounded.of_arena rfl, fun k below => ?_, ordered.entryUncalled,
    fun f member => (ordered.fields f member).later ordered.grounded later, fun d member => ?_,
    fun a member => ?_, ?_, ?_⟩
  · rw [size] at below
    rw [later.isEntry below]
    exact ordered.entry k below
  · rcases mem_toList_push member with old | rfl
    · exact (ordered.bodies d old).later ordered.grounded later
    · exact recorded.later ordered.grounded later
  · rw [completed_closeMethod] at member
    rw [size]
    rcases List.mem_append.1 member with complete | current
    · exact ordered.known a complete
    · exact List.mem_singleton.1 current ▸ nested.writes.known
  · rw [completed_closeMethod]
    exact nested.once
  · rw [completed_closeMethod]
    exact nested.calleesFirst

end Program

namespace Opening

theorem proceeds (o : Opening site m wanted p) (nested : p.Nested m)
    (during : Proceeds o.method o.program q) :
    Proceeds m p (q.closeMethod o.method o.locals body) := by
  obtain ⟨ordered, writes⟩ := nested
  have size := o.size_program
  refine ⟨(o.extends.trans during.later).trans (extends_closeMethod ..), ?_, ?_, ?_⟩
  · intro a old other b call
    have call := during.calls a (size ▸ Nat.lt_succ_of_lt old) (Nat.ne_of_lt old) b call
    exact ((o.calls_program ordered.tracks writes.known).1 call).resolve_right fun same => other same.1
  · intro a below new
    rw [size_closeMethod] at below
    rw [completed_closeMethod, List.mem_append, List.mem_singleton]
    by_cases same : a = o.method
    · exact .inr same
    · exact .inl (during.fresh a below (size ▸ Nat.lt_of_le_of_ne new (Ne.symm same)))
  · intro a member
    rw [completed_closeMethod, List.mem_append, List.mem_singleton] at member
    rcases member with complete | rfl
    · rcases during.old a complete with old | new
      · exact .inl (o.completed_program ▸ old)
      · rw [size] at new
        exact .inr (Nat.le_of_succ_le new)
    · exact .inr (Nat.le_refl _)

theorem writes (o : Opening site m wanted p) (nested : p.Nested m)
    (during : Proceeds o.method o.program q) :
    (q.closeMethod o.method o.locals body).Writes m := by
  have proceeds : Proceeds m p (q.closeMethod o.method o.locals body) := o.proceeds nested during
  obtain ⟨ordered, writes⟩ := nested
  have known := writes.known
  refine ⟨Nat.lt_of_lt_of_le known proceeds.later.methods_size, ?_, ?_, ?_⟩
  · intro member
    rcases proceeds.old m member with old | new
    · exact writes.incomplete old
    · exact Nat.not_le_of_lt known new
  · intro a below open'
    have old : a < p.declared.methods.size := by
      by_contra new
      exact open' (proceeds.fresh a below (Nat.le_of_not_lt new))
    have before : a ∉ p.completed := fun member => open' (proceeds.later.completed.subset member)
    exact ReflTransGen.mono proceeds.later.calls _ _ (writes.ancestors a old before)
  · intro b call
    have inside : m < o.program.declared.methods.size := o.size_program ▸ Nat.lt_succ_of_lt known
    have call := during.calls m inside (Nat.ne_of_lt known) b call
    rw [completed_closeMethod, List.mem_append, List.mem_singleton]
    rcases (o.calls_program ordered.tracks known).1 call with old | ⟨_, same⟩
    · refine .inl (during.later.completed.subset ?_)
      rw [o.completed_program]
      exact writes.callees b old
    · exact .inr same

/-- When a new method is complete, its caller is written on, and the call is recorded. -/
theorem nested_close (o : Opening site m wanted p) (nested : p.Nested m)
    (inner : q.Nested o.method) (during : Proceeds o.method o.program q)
    (recorded : q.RecordedIn (some o.method) body) :
    (q.closeMethod o.method o.locals body).Nested m ∧
      Proceeds m p (q.closeMethod o.method o.locals body) ∧
      (q.closeMethod o.method o.locals body).declared.calls.Calls m o.method := by
  refine ⟨⟨inner.ordered_closeMethod o.locals recorded, o.writes nested during⟩,
    o.proceeds nested during, ?_⟩
  have called := (o.calls_program nested.ordered.tracks nested.writes.known).2 (.inr ⟨rfl, rfl⟩)
  exact (during.later.trans (extends_closeMethod ..)).calls _ _ called

end Opening
end JavaSmith
