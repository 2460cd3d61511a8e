import JavaSmith.Proofs.Generation
import JavaSmith.Proofs.RunCalls

/-! Generated classes cannot recurse. All calls that can be executed are recorded, the recorded ones form
no cycle, and the methods stand in an order in which callees come first. -/
namespace JavaSmith

open Generator Program

def Program.order (p : Program) : List MethodId := p.methodsInOrder.map MethodDeclaration.method

/-- Calls follow the order in which the methods are written. -/
structure Program.NonRecursive (p : Program) : Prop where
  /-- What a body calls is recorded for its method. -/
  recorded : ∀ m ∈ p.methodsInOrder, ∀ s ∈ visitBlock m.body, ∀ e ∈ s.roots, ∀ k,
    p.Invokes e k → p.declared.calls.Calls m.method k
  initializers : ∀ f ∈ p.fields.toList, ∀ k, ¬p.Invokes f.initializer k
  acyclic : p.declared.calls.Acyclic
  /-- Every method has one place in the order. -/
  places : p.order.Perm (List.range p.declared.methods.size)
  calleesFirst : ∀ a b, p.declared.calls.Calls a b → [b, a].Sublist p.order
  entryLast : p.order.getLast? = some entryId
  entryUncalled : ∀ m, ¬p.declared.calls.Calls m entryId

namespace Program

theorem nested_new (className : String) (seed : UInt64) (knobs : Knobs) :
    (new className seed knobs).Nested entryId := by
  have uncalled : ∀ a b, ¬(new className seed knobs).declared.calls.Calls a b := by
    intro a b call
    have old : CallGraph.empty.Calls a b := CallGraph.calls_addMethod _ ▸ call
    exact absurd (CallGraph.lt_size_of_calls old) (Nat.not_lt_zero a)
  have first {m : MethodId} (inside : m < (new className seed knobs).declared.methods.size) :
      m = entryId := Nat.lt_one_iff.1 inside
  refine ⟨⟨Declarations.tracks_empty.appendMethod _, fun e o operand => ?_, fun m inside => ?_,
    fun m => uncalled m entryId, fun f none => by contradiction, fun m none => by contradiction,
    fun m none => by contradiction, .nil, fun m none => by contradiction⟩,
    ⟨Nat.zero_lt_one, by simp [completed, new], fun a inside _ => ?_, fun b call => ?_⟩⟩
  · contradiction
  · obtain rfl := first inside
    exact ⟨fun _ => rfl, fun _ => rfl⟩
  · obtain rfl := first inside
    exact .refl
  · exact absurd call (uncalled _ _)

variable {p : Program} {body : Block}

theorem order_closeEntry (p : Program) (body : Block) :
    (p.closeEntry body).order = p.completed ++ [p.entry.method] := by
  simp [order, methodsInOrder, closeEntry, recordCost, completed]

theorem size_closeEntry (p : Program) (body : Block) :
    (p.closeEntry body).declared.methods.size = p.declared.methods.size := by
  simp [closeEntry, recordCost, Declarations.setCost]

/-- Once all other methods are complete, the entry can be completed. -/
theorem Nested.nonRecursive (nested : p.Nested entryId) (entry : p.entry.method = entryId)
    (complete : ∀ m < p.declared.methods.size, 1 ≤ m → m ∈ p.completed)
    (recorded : p.RecordedIn (some entryId) body) : (p.closeEntry body).NonRecursive := by
  have ordered := nested.ordered
  have order : (p.closeEntry body).order = p.completed ++ [entryId] :=
    entry ▸ p.order_closeEntry body
  have later := p.extends_closeEntry body
  have places : (p.closeEntry body).order.Perm
      (List.range (p.closeEntry body).declared.methods.size) := by
    rw [order, size_closeEntry]
    refine (List.perm_ext_iff_of_nodup nested.once List.nodup_range).2 fun m => ?_
    rw [List.mem_append, List.mem_singleton, List.mem_range]
    constructor
    · rintro (member | rfl)
      · exact ordered.known m member
      · exact nested.writes.known
    · intro inside
      rcases Nat.eq_zero_or_pos m with first | later
      · exact .inr first
      · exact .inl (complete m inside later)
  refine ⟨?_, ?_, ordered.tracks.exact.acyclic, places, ?_, ?_, ordered.entryUncalled⟩
  · intro m member s visited e root k invokes
    have body : (p.closeEntry body).RecordedIn (some m.method) m.body := by
      rcases List.mem_append.1 member with generated | last
      · exact (ordered.bodies m generated).later ordered.grounded later
      · rw [List.mem_singleton.1 last]
        exact entry ▸ recorded.later ordered.grounded later
    obtain ⟨_, same, call⟩ := (body s visited e root).calls k invokes
    exact Option.some.inj same ▸ call
  · intro f member k invokes
    obtain ⟨_, none, _⟩ :=
      ((ordered.fields f member).later ordered.grounded later).calls k invokes
    contradiction
  · intro a b call
    have inside : a < p.declared.methods.size := by
      rw [← ordered.tracks.sizes]
      exact CallGraph.lt_size_of_calls call
    have member := places.mem_iff.2 (List.mem_range.2 (p.size_closeEntry body ▸ inside))
    rw [order] at member ⊢
    exact nested.calleesFirst a member b call
  · rw [order]
    exact List.getLast?_concat

end Program

theorem Generated.nonRecursive {c : Catalog} {p : Program} {seed : UInt64} {config : Config}
    (generated : Generated c seed config p) : p.NonRecursive := by
  obtain ⟨length, body, q, _, run, rfl⟩ := generated.run
  obtain ⟨nested, proceeds, recorded⟩ := run.nested entryId (.inr rfl) (nested_new ..)
  exact nested.nonRecursive proceeds.later.entry proceeds.fresh recorded

/-- Generated classes cannot recurse. -/
theorem generated_nonRecursive (catalog : Catalog) (seed : UInt64) (config : Config) :
    ∃ p c, generateWith catalog seed config = .ok (p, c) ∧ p.NonRecursive := by
  obtain ⟨p, c, done, generated⟩ := generateWith_ok catalog seed config
  exact ⟨p, c, done, generated.nonRecursive⟩

end JavaSmith
