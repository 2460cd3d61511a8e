import JavaSmith.Proofs.Generators.Blocks

/-! Methods. A new method may add one method fewer, and no method is asked for where none may be added,
so the ladder of methods always has a step left. -/
namespace JavaSmith

open Generator JavaSmith.Random

variable {c : Catalog} {n : Nat} {p : Program} {site : Site} {caller : MethodId} {wanted : Option Ty}

namespace Generator

theorem ensures_parameterTypes (c : Catalog) (p : Program) (arity : Nat) :
    Ensures (parameterTypes c arity) p fun ts p' =>
      (ts.length = arity ∧ ∀ t ∈ ts, OfferedType c p.knobs t) ∧ p' = p := by
  induction arity with
  | zero => exact Ensures.pure ⟨⟨rfl, fun t none => by contradiction⟩, rfl⟩
  | succ arity ih =>
    refine Ensures.bind (ensures_valueType c p) ?_
    rintro t _ ⟨first, rfl⟩
    refine Ensures.bind ih ?_
    rintro rest _ ⟨⟨length, others⟩, rfl⟩
    refine Ensures.pure ⟨⟨congrArg (· + 1) length, fun u member => ?_⟩, rfl⟩
    rcases List.mem_cons.1 member with rfl | later
    · exact first
    · exact others u later

theorem ensures_resultType (c : Catalog) (wanted : Option Ty) (p : Program) :
    Ensures (resultType c wanted) p fun t p' =>
      ((∀ u, wanted = some u → t = u) ∧
        (wanted = none → t = .void ∨ OfferedType c p.knobs t)) ∧ p' = p := by
  cases wanted with
  | some t =>
    refine Ensures.pure ⟨⟨?_, fun none => by contradiction⟩, rfl⟩
    rintro _ ⟨⟩
    rfl
  | none =>
    refine Ensures.draw (Always.trivial _) ?_
    rintro (_ | _) _
    · refine (ensures_valueType c p).mono fun t p' ⟨offered, same⟩ => ?_
      exact ⟨⟨fun u some => by contradiction, fun _ => .inr offered⟩, same⟩
    · exact Ensures.pure ⟨⟨fun u some => by contradiction, fun _ => .inl rfl⟩, rfl⟩

theorem ensures_parameters (p : Program) (ts : List Ty) :
    Ensures (parameters ts) p fun ls p' =>
      ls = (p.addParameters ts).1 ∧ p' = (p.addParameters ts).2 := by
  induction ts generalizing p with
  | nil => exact Ensures.pure ⟨rfl, rfl⟩
  | cons t rest ih =>
    refine Ensures.step ?_
    refine Ensures.bind (ih _) ?_
    rintro _ _ ⟨rfl, rfl⟩
    exact Ensures.pure ⟨rfl, rfl⟩

theorem ensures_ending {returns : Ty} {sub : ExprGen} (stage : Stage c n p) (good : site.Good c p)
    (valued : returns.Valued ∨ returns = .void) (exprs : Exprs c n sub) :
    Ensures (ending sub site returns) p (Run (.ending site returns) p) := by
  unfold ending
  split
  · next void =>
    obtain rfl : returns = .void := by
      cases returns <;> first | rfl | contradiction
    refine Ensures.draw (Always.trivial _) ?_
    rintro (_ | _) _
    · exact Ensures.pure (.endingVoid (.inl rfl))
    · exact Ensures.pure (.endingVoid (.inr rfl))
  · next notVoid =>
    have type := valued.resolve_right (by rintro rfl; exact notVoid rfl)
    refine Ensures.bind (exprs _ _ p stage good.atStatement type) fun e p' run => ?_
    exact Ensures.pure (.endingValue (by simpa using notVoid) run)

end Generator

namespace Opening

theorem userMethodCount (o : Opening site caller wanted p) :
    p.declared.userMethodCount + 1 ≤ o.program.declared.userMethodCount := by
  have added : (p.declared.addMethod ⟨false, true, o.isStatic, false⟩ o.params
      o.returns).userMethodCount = p.declared.userMethodCount + 1 := by
    simp [Declarations.userMethodCount, Declarations.addMethod, Declarations.appendMethod]
  rw [← added]
  have h : (p.addMethod ⟨false, true, o.isStatic, false⟩ o.params o.returns).2.Extends o.program :=
    (Program.extends_addCallEdge o.recorded).trans (Program.extends_addParameters ..)
  exact h.userMethodCount

theorem stage (o : Opening site caller wanted p) (stage : Stage c (n + 1) p) (good : site.Good c p)
    (known : site.ctx.method = some caller) (valued : ∀ t, wanted = some t → t.Valued) :
    Stage c n o.program where
  sound := o.sound good stage.sound known valued
  left := by
    have left := stage.left
    have counted := o.userMethodCount
    rw [o.extends.knobs]
    omega

end Opening

namespace Generator

variable {block : BlockGen} {expr : ExprGen}

theorem ensures_methodBody {returns : Ty} {length : Nat} (blocks : Blocks c n block)
    (exprs : Exprs c n expr) (stage : Stage c n p) (good : site.Good c p)
    (valued : returns.Valued ∨ returns = .void) :
    Ensures (methodBody block expr site length returns) p fun b p' =>
      ∃ body last q, b = body ++ last ∧ Run (.block site length) p body q ∧
        Run (.ending (site.afterBlock body) returns) q last p' := by
  refine Ensures.bind (blocks site length p stage good) fun body q run => ?_
  obtain ⟨stage', typed⟩ := run.stage stage good
  have good' := (good.later run.extends).afterBlock (typed .void).declaresIn
  refine Ensures.bind (ensures_ending stage' good' valued exprs) fun last p' run' => ?_
  exact Ensures.pure ⟨body, last, q, rfl, run, run'⟩

theorem ensures_methodStep (blocks : Blocks c n block) (exprs : Exprs c n expr) :
    MethodsAt c (n + 1) (methodStep block expr) := by
  intro site caller wanted p stage good known valued few
  refine Ensures.either (ensures_static site p) ?_
  rintro isStatic _ ⟨static, rfl⟩
  refine Ensures.knob ?_
  refine Ensures.draw (always_binomial _) fun arity bounded => ?_
  refine Ensures.bind (ensures_parameterTypes _ _ _) ?_
  rintro params _ ⟨⟨rfl, offered⟩, rfl⟩
  refine Ensures.bind (ensures_resultType _ _ _) ?_
  rintro returns _ ⟨⟨fits, chosen⟩, rfl⟩
  obtain ⟨inside, sameStatic⟩ := good.method caller known
  obtain ⟨d, recorded⟩ := Declarations.exists_addCallEdge_addMethod stage.sound.tracks inside
    isStatic params returns (sameStatic ▸ static)
  let o : Opening site caller wanted _ :=
    ⟨isStatic, params, returns, d, static, bounded, offered, fits, chosen, recorded⟩
  have stage' := o.stage stage good known valued
  have good' := o.good good
  refine Ensures.step ?_
  refine Ensures.addCallEdge recorded ?_
  refine Ensures.bind (ensures_parameters _ _) ?_
  rintro _ _ ⟨rfl, rfl⟩
  refine Ensures.knob ?_
  refine Ensures.draw (always_length _) fun length short => ?_
  have result : o.returns.Valued ∨ o.returns = .void := by
    obtain ⟨inside, _, _, same⟩ := o.method_program
    exact same ▸ stage'.sound.returns _ inside
  refine Ensures.bind (ensures_methodBody blocks exprs stage' good' result) ?_
  rintro _ q ⟨body, last, q', rfl, run, run'⟩
  refine Ensures.step ?_
  refine Ensures.step ?_
  refine Ensures.pure (.method (o := o) ?_ run run')
  exact o.extends.knobs ▸ short

/-- The ladder of methods is never asked for one too many. -/
theorem methodsAt (n : Nat) : MethodsAt c n (methodAt n) := by
  induction n with
  | zero =>
    intro site caller wanted p stage _ _ _ few
    have left := stage.left
    omega
  | succ n ih => exact ensures_methodStep (blocks ⟨exprs ih, ih⟩) (exprs ih)

end Generator

theorem ensures_block {length : Nat} (sound : p.Sound c) (good : site.Good c p) :
    Ensures (Gen.block site length) p (Run (.block site length) p) := by
  refine Ensures.view ?_
  exact blocks ⟨exprs (methodsAt _), methodsAt _⟩ site length p ⟨sound, Nat.le_refl _⟩ good

end JavaSmith
