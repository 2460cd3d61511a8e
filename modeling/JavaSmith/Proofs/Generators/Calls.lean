import JavaSmith.Proofs.Generators.Arguments

/-! Calls of generated methods. A call that was chosen is always recorded: a callable method is not
excluded, and from a new one nothing is called. -/
namespace JavaSmith

open Generator JavaSmith.Random

variable {c : Catalog} {n : Nat} {p : Program} {site : Site} {caller : MethodId} {wanted : Option Ty}

theorem CallGraph.exists_addEdge? {g : CallGraph} {caller callee : MethodId}
    (open' : callee ∉ g.excludedFor caller) : ∃ g', g.addEdge? caller callee = some g' := by
  rw [addEdge?_eq, if_neg open']
  split
  · exact ⟨_, rfl⟩
  · exact ⟨_, rfl⟩

namespace Declarations

theorem exists_addCallEdge {d : Declarations} {caller m : MethodId} (h : m ∈ d.callable caller) :
    ∃ d', d.addCallEdge caller m = .ok d' := by
  obtain ⟨_, entry, _, open', static⟩ := mem_callable.1 h
  obtain ⟨g, added⟩ := CallGraph.exists_addEdge? open'
  exact ⟨_, addCallEdge_eq_ok_iff.2 ⟨entry, static, g, added, rfl⟩⟩

theorem exists_addCallEdge_addMethod {d : Declarations} {caller : MethodId} (tracks : d.Tracks)
    (known : caller < d.methods.size) (isStatic : Bool) (params : List Ty) (returns : Ty)
    (static : (d.method caller).isStatic = true → isStatic = true) :
    ∃ d', (d.addMethod ⟨false, true, isStatic, false⟩ params returns).addCallEdge caller
      d.methods.size = .ok d' := by
  have open' : d.methods.size ∉ d.calls.addMethod.excludedFor caller := by
    rw [← tracks.sizes] at known ⊢
    rw [CallGraph.excludedFor_addMethod tracks.exact.sizes, if_neg (Nat.ne_of_lt known),
      tracks.exact.mem_excluded caller known]
    intro path
    rcases path.cases_head with same | ⟨m, call, _⟩
    · exact absurd same.symm (Nat.ne_of_lt known)
    · exact absurd (CallGraph.lt_size_of_calls call) (Nat.lt_irrefl _)
  obtain ⟨g, added⟩ := CallGraph.exists_addEdge? open'
  refine ⟨_, addCallEdge_eq_ok_iff.2 ⟨?_, ?_, g, added, rfl⟩⟩
  · simp [addMethod, appendMethod, method]
  · have old : (d.addMethod ⟨false, true, isStatic, false⟩ params returns).method caller =
        d.method caller := by
      simp [addMethod, appendMethod, method, Array.getElem?_push, Nat.ne_of_lt known]
    rw [old]
    simpa [addMethod, appendMethod, method, Method.isStatic] using static

end Declarations

theorem Ensures.addCallEdge {β : Type} {Q : β → Program → Prop} {f : Unit → Gen β}
    {caller callee : MethodId} {d : Declarations}
    (recorded : p.declared.addCallEdge caller callee = .ok d)
    (h : Ensures (f ()) (p.withDeclared d) Q) :
    Ensures (Gen.addCallEdge caller callee >>= f) p Q := by
  refine Ensures.bind (R := fun _ p' => p' = p.withDeclared d) ?_ ?_
  · intro stream
    refine ⟨(), ⟨p.withDeclared d, stream⟩, ?_, rfl⟩
    unfold Gen.addCallEdge
    dsimp only
    rw [recorded]
    rfl
  · rintro _ _ rfl
    exact h

namespace Generator

/-- What is asked of a generator of methods in classes to which at most `n` may still be added. -/
def MethodsAt (c : Catalog) (n : Nat) (newMethod : MethodGen) : Prop :=
  ∀ site caller wanted p, Stage c n p → site.Good c p → site.ctx.method = some caller →
    (∀ t, wanted = some t → t.Valued) →
    p.declared.userMethodCount < p.knobs.get .maxMethods →
    Ensures (newMethod site caller wanted) p (Run (.method site caller wanted) p)

variable {newMethod : MethodGen} {argument : ArgumentGen}

theorem ensures_calledMethod (stage : Stage c n p) (good : site.Good c p)
    (known : site.ctx.method = some caller) (valued : ∀ t, wanted = some t → t.Valued)
    (methods : MethodsAt c n newMethod) :
    Ensures (calledMethod newMethod site caller wanted) p fun o p' =>
      o.elim (p' = p) fun m => Run (.callee site caller wanted) p m p' := by
  refine Ensures.knob ?_
  refine Ensures.view ?_
  have rolled : Ensures (if p.declared.userMethodCount < p.knobs.get .maxMethods then
      Gen.roll .methodProbability else pure false) p fun b p' =>
        (b = true → p.declared.userMethodCount < p.knobs.get .maxMethods ∧
          p.Allows .methodProbability) ∧ p' = p := by
    split
    · next few =>
      refine (Ensures.roll .methodProbability).mono fun b p' ⟨allows, _, same⟩ => ?_
      exact ⟨fun h => ⟨few, allows h⟩, same⟩
    · exact Ensures.pure ⟨fun h => by contradiction, rfl⟩
  refine Ensures.bind rolled ?_
  rintro (_ | _) _ ⟨allows, rfl⟩
  · refine Ensures.drawDeclared (Declarations.always_randomCallable _ _ _) ?_
    rintro (_ | m) ⟨found, _⟩
    · exact Ensures.pure rfl
    · obtain ⟨callable, accepted⟩ := found m rfl
      rw [Bool.and_eq_true, decide_eq_true_eq] at accepted
      obtain ⟨d, recorded⟩ := Declarations.exists_addCallEdge callable
      refine Ensures.addCallEdge recorded ?_
      exact Ensures.pure (.calleeFound callable accepted.1 accepted.2 recorded)
  · obtain ⟨few, allowed⟩ := allows rfl
    refine Ensures.bind (methods site caller wanted _ stage good known valued few) fun m p' run => ?_
    exact Ensures.pure (.calleeNew few allowed run)

def CallTried (site : Site) (wanted : Option Ty) (p : Program) (o : Option ExprId) (p' : Program) :
    Prop :=
  o.elim (Run (.detour site wanted) p () p') fun e => Run (.call site wanted) p e p'

theorem ensures_userCall (stage : Stage c n p) (good : site.Good c p)
    (allowed : p.Allows .methodCallProbability) (valued : ∀ t, wanted = some t → t.Valued)
    (methods : MethodsAt c n newMethod) (each : ArgumentsAt c n site argument) :
    Ensures (userCall newMethod argument site wanted) p (CallTried site wanted p) := by
  unfold userCall
  cases known : site.ctx.method with
  | none => exact Ensures.pure .noDetour
  | some caller =>
    refine Ensures.bind (ensures_calledMethod stage good known valued methods) ?_
    rintro (_ | m) p' outcome
    · obtain rfl : p' = p := outcome
      exact Ensures.pure .noDetour
    · have callee : Run (.callee site caller wanted) p m p' := outcome
      obtain ⟨stage', inside, _⟩ := callee.stage stage ⟨good, known, valued⟩
      refine Ensures.view ?_
      split
      · next dear => exact Ensures.pure (.detourMethod known allowed callee dear)
      · next dear =>
        have cheap := Nat.le_of_not_lt dear
        refine Ensures.bind (ensures_arguments stage' (good.later callee.extends)
          (stage'.sound.params m inside) each) ?_
        rintro (_ | args) p'' made
        · obtain ⟨_, ts, es, before, run⟩ := made
          exact Ensures.pure (.detourCall known allowed callee cheap before run)
        · refine Ensures.step ?_
          exact Ensures.pure (.call known callee rfl cheap made)

end Generator
end JavaSmith
