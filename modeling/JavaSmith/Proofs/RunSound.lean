import JavaSmith.Proofs.Soundness

/-! Every run that is started where it may be leaves a well-typed class and gives what it was started
for. -/
namespace JavaSmith

open Generator Program

theorem Scope.mem_visible_declare {s : Scope} {l k : LocalId} (h : k ∈ (s.declare l).visible) :
    k = l ∨ k ∈ s.visible := by
  unfold Scope.declare at h
  split at h
  · exact .inr h
  · next block outer blocks =>
    rw [mem_visible] at h ⊢
    rw [blocks]
    simp only [List.flatten_cons, List.mem_append, List.mem_singleton] at h ⊢
    rcases h with (old | new) | outside
    · exact .inr (.inl old)
    · exact .inl new
    · exact .inr (.inr outside)

theorem Scope.mem_visible_after {b : Block} {s : Scope} {k : LocalId}
    (h : k ∈ (b.foldl after s).visible) : (∃ e, .declare k e ∈ b) ∨ k ∈ s.visible := by
  induction b generalizing s with
  | nil => exact .inr h
  | cons first rest ih =>
    rcases ih h with ⟨e, later⟩ | visible
    · exact .inl ⟨e, List.mem_cons_of_mem _ later⟩
    · cases first with
      | declare l e =>
        rcases mem_visible_declare visible with rfl | old
        · exact .inl ⟨e, List.mem_cons_self⟩
        · exact .inr old
      | _ => exact .inr visible

theorem Scope.mem_visible_parameters {locals : List LocalId} {s : Scope} {k : LocalId}
    (h : k ∈ (locals.foldl Scope.declare s).visible) : k ∈ locals ∨ k ∈ s.visible := by
  induction locals generalizing s with
  | nil => exact .inr h
  | cons l rest ih =>
    rcases ih h with later | visible
    · exact .inl (List.mem_cons_of_mem _ later)
    · rcases mem_visible_declare visible with rfl | old
      · exact .inl List.mem_cons_self
      · exact .inr old

theorem Program.new_addParameters (p : Program) (ts : List Ty) :
    (∀ l ∈ (p.addParameters ts).1, l < (p.addParameters ts).2.declared.locals.size) ∧
    (p.addParameters ts).1.map
      (fun l => (p.addParameters ts).2.declared.typeOf (.localVar l)) = ts := by
  induction ts generalizing p with
  | nil => exact ⟨fun l none => by contradiction, rfl⟩
  | cons t rest ih =>
    obtain ⟨known, type⟩ := p.new_addInitializedLocal .none t
    obtain ⟨others, types⟩ := ih (p.addInitializedLocal .none t).2
    have h := extends_addParameters (p.addInitializedLocal .none t).2 rest
    refine ⟨fun l member => ?_, ?_⟩
    · rcases List.mem_cons.1 member with rfl | later
      · exact Nat.lt_of_lt_of_le known h.locals_size
      · exact others l later
    · exact congrArg₂ _ ((h.typeOf_var (v := .localVar _) known).trans type) types

def Program.DeclaresIn (p : Program) (b : Block) : Prop :=
  ∀ l e, .declare l e ∈ b → l < p.declared.locals.size

/-- A place at which code of the class may be written. -/
structure Site.Good (site : Site) (c : Catalog) (p : Program) : Prop where
  catalog : site.catalog = c
  prepared : c.Prepared p.knobs
  division : site.ctx.allowDivideByZero = p.knobs.flag .allowDivideByZero
  method : ∀ m, site.ctx.method = some m →
    m < p.declared.methods.size ∧ (p.declared.method m).isStatic = site.ctx.isStatic
  scope : ∀ l ∈ site.scope.visible, l < p.declared.locals.size

namespace Site.Good

variable {site : Site} {c : Catalog} {p p' : Program}

theorem later (good : site.Good c p) (h : p.Extends p') : site.Good c p' where
  catalog := good.catalog
  prepared := h.knobs ▸ good.prepared
  division := h.knobs ▸ good.division
  method m known := by
    obtain ⟨inside, static⟩ := good.method m known
    exact ⟨Nat.lt_of_lt_of_le inside h.methods_size, (h.isStatic inside).trans static⟩
  scope l visible := Nat.lt_of_lt_of_le (good.scope l visible) h.locals_size

theorem deeper (good : site.Good c p) : site.deeper.Good c p := { good with }

theorem atStatement (good : site.Good c p) : site.atStatement.Good c p := { good with }

theorem withoutNull (good : site.Good c p) (forbidNull : Bool) :
    (site.withoutNull forbidNull).Good c p := by
  unfold Site.withoutNull
  split
  · exact { good with }
  · exact good

theorem inInitializer (good : site.Good c p) (isStatic : Bool) :
    (site.inInitializer isStatic).Good c p where
  catalog := good.catalog
  prepared := good.prepared
  division := good.division
  method _ known := by contradiction
  scope _ visible := by contradiction

theorem inBranch (good : site.Good c p) : site.inBranch.Good c p where
  catalog := good.catalog
  prepared := good.prepared
  division := good.division
  method := good.method
  scope l visible := by
    apply good.scope
    simpa [Site.inBranch, Scope.enter, Scope.visible] using visible

theorem inLoop (good : site.Good c p) (maxIterations : Nat) :
    (site.inLoop maxIterations p.addCounter.1).Good c p.addCounter.2 where
  catalog := good.catalog
  prepared := good.prepared
  division := good.division
  method := good.method
  scope l visible := by
    have added : p.addCounter.2.declared.locals.size = p.declared.locals.size + 1 := by
      simp [addCounter, Declarations.addCounter]
    rw [added]
    rcases Scope.mem_visible_declare visible with rfl | old
    · exact Nat.lt_succ_self _
    · exact Nat.lt_succ_of_lt (good.inBranch.scope l old)

theorem afterBlock (good : site.Good c p) {b : Block} (declared : p.DeclaresIn b) :
    (site.afterBlock b).Good c p where
  catalog := good.catalog
  prepared := good.prepared
  division := good.division
  method := good.method
  scope l visible := by
    rcases Scope.mem_visible_after visible with ⟨e, new⟩ | old
    · exact declared l e new
    · exact good.scope l old

theorem declares (good : site.Good c p) {ctx : Context} {v : Var}
    (offered : site.scope.Offers p.declared ctx v) : p.declared.Declares v := by
  cases offered.seen with
  | localVar visible => exact good.scope _ visible
  | field visible => exact (Scope.mem_visibleFields.1 visible).1

theorem valued (good : site.Good c p) {t : Ty} (offered : OfferedType site.catalog p.knobs t) :
    t.Valued := by
  rw [good.catalog] at offered
  exact offered.valued good.prepared

theorem serves (good : site.Good c p) {t : Ty} {b : Builder} {allowExternal : Bool}
    (offered : b ∈ candidates site t allowExternal) : c.Serves t b := by
  rw [← good.catalog]
  exact Catalog.serves_of_mem (List.mem_filter.1 offered).1

theorem serves_of_mem_ownBuilders (good : site.Good c p) {t : Ty} {b : Builder}
    (own : b ∈ site.catalog.ownBuilders t) : c.Serves t b := by
  rw [← good.catalog]
  exact Catalog.serves_of_mem_ownBuilders own

end Site.Good

namespace Opening

variable {site : Site} {caller : MethodId} {wanted : Option Ty} {c : Catalog} {p : Program}

theorem record (o : Opening site caller wanted p) :
    o.method < o.program.declared.methods.size ∧
    (o.program.declared.method o.method).fixed =
      ⟨s!"m{p.declared.userMethodCount + 1}", ⟨false, true, o.isStatic, false⟩, o.params, o.returns,
        false, 0⟩ := by
  obtain ⟨q, added⟩ : ∃ q, q = (p.addMethod ⟨false, true, o.isStatic, false⟩ o.params o.returns).2 :=
    ⟨_, rfl⟩
  have h : q.Extends o.program := by
    rw [added]
    exact (extends_addCallEdge o.recorded).trans (extends_addParameters ..)
  have inside : o.method < q.declared.methods.size := by
    simp [added, addMethod, Declarations.addMethod, Declarations.appendMethod, Opening.method]
  refine ⟨Nat.lt_of_lt_of_le inside h.methods_size, ?_⟩
  rw [h.method inside, added]
  simp [addMethod, Declarations.addMethod, Declarations.appendMethod, Opening.method,
    Declarations.method, Method.fixed]

theorem method_program (o : Opening site caller wanted p) :
    o.method < o.program.declared.methods.size ∧
    (o.program.declared.method o.method).isStatic = o.isStatic ∧
    (o.program.declared.method o.method).params = o.params ∧
    (o.program.declared.method o.method).returns = o.returns :=
  ⟨o.record.1, (congrArg Method.isStatic o.record.2 :), (congrArg Method.params o.record.2 :),
    (congrArg Method.returns o.record.2 :)⟩

theorem good (o : Opening site caller wanted p) (good : site.Good c p) :
    o.inner.Good c o.program where
  catalog := good.catalog
  prepared := o.extends.knobs ▸ good.prepared
  division := o.extends.knobs ▸ good.division
  method m known := by
    cases known
    exact ⟨o.method_program.1, o.method_program.2.1⟩
  scope l visible := by
    rcases Scope.mem_visible_parameters visible with parameter | old
    · exact (new_addParameters ..).1 l parameter
    · contradiction

theorem valued_returns (o : Opening site caller wanted p) (good : site.Good c p)
    (valued : ∀ t, wanted = some t → t.Valued) : o.returns.Valued ∨ o.returns = .void := by
  cases wanted with
  | none => exact (o.chosen rfl).symm.imp_left good.valued
  | some t =>
    rw [o.fits t rfl]
    exact .inl (valued t rfl)

theorem sound (o : Opening site caller wanted p) (good : site.Good c p) (sound : p.Sound c)
    (known : site.ctx.method = some caller) (valued : ∀ t, wanted = some t → t.Valued) :
    o.program.Sound c := by
  have declared := sound.addMethod ⟨false, true, o.isStatic, false⟩
    (fun t member => good.valued (o.offered t member)) (o.valued_returns good valued)
  have inside := (good.method caller known).1
  have size : (p.declared.addMethod ⟨false, true, o.isStatic, false⟩ o.params
      o.returns).methods.size = p.declared.methods.size + 1 := by
    simp [Declarations.addMethod, Declarations.appendMethod]
  have called := declared.addCallEdge (size ▸ Nat.lt_succ_of_lt inside)
    (size ▸ Nat.lt_succ_self _) o.recorded
  exact called.addParameters fun t member => good.valued (o.offered t member)

end Opening

theorem mem_visitBlock_of_mem {s : Statement} {b : Block} (member : s ∈ b) : s ∈ visitBlock b := by
  induction b with
  | nil => contradiction
  | cons first rest ih =>
    rw [visitBlock, List.mem_append]
    rcases List.mem_cons.1 member with rfl | later
    · refine .inl ?_
      cases s <;> simp [Statement.visit]
    · exact .inr (ih later)

theorem Program.BlockTyped.declaresIn {p : Program} {returns : Ty} {b : Block}
    (typed : p.BlockTyped returns b) : p.DeclaresIn b :=
  fun _ _ member => (typed _ (mem_visitBlock_of_mem member)).1

/-- When a run may be started. -/
def Task.Ready (c : Catalog) (p : Program) : Task → Prop
  | .expr site t | .argument site t _ => site.Good c p ∧ t.Valued
  | .arguments site _ ts => site.Good c p ∧ ∀ t ∈ ts, t.Valued
  | .callee site caller wanted | .method site caller wanted =>
    site.Good c p ∧ site.ctx.method = some caller ∧ ∀ t, wanted = some t → t.Valued
  | .call site wanted | .detour site wanted => site.Good c p ∧ ∀ t, wanted = some t → t.Valued
  | .ending site returns => site.Good c p ∧ (returns.Valued ∨ returns = .void)
  | .bound site | .statement site | .block site _ => site.Good c p

/-- What a run gives, in the class that it leaves. -/
def Task.Delivers (p : Program) : (task : Task) → task.Outcome → Prop
  | .expr _ t, e | .argument _ t _, e => p.Made t e
  | .arguments _ _ ts, es => p.Accepts ts es
  | .callee _ _ wanted, m | .method _ _ wanted, m =>
    m < p.declared.methods.size ∧ acceptsResult wanted (p.declared.method m) = true
  | .call _ wanted, e => e < p.arena.size ∧ ∀ t, wanted = some t → t.accepts (p.typeOf e) = true
  | .ending _ returns, b => p.BlockTyped returns b
  | .statement _, b | .block _ _, b => ∀ returns, p.BlockTyped returns b
  | .bound _, e => p.Made (.loopBound (p.knobs.get .maxLoopIterations)) e
  | .detour _ _, _ => True

theorem Program.Sound.addRead {c : Catalog} {p : Program} (sound : p.Sound c) {v : Var} {t : Ty}
    (declared : p.declared.Declares v) (accepted : t.accepts (p.declared.typeOf v) = true) :
    (p.addRead v).2.Sound c ∧ (p.addRead v).2.Made t (p.addRead v).1 :=
  ⟨sound.add (.read declared rfl) (.inl (sound.vars v declared)), made_add _ _ accepted⟩

theorem Program.Sound.addBuilt {c : Catalog} {p : Program} {t : Ty} {b : Builder}
    {args : List ExprId} {node : Node} (sound : p.Sound c) (prepared : c.Prepared p.knobs)
    (valued : t.Valued) (serves : c.Serves t b) (given : p.Accepts b.parameters args)
    (makes : b.Makes args node) :
    (p.add node b.result).2.Sound c ∧ (p.add node b.result).2.Made t (p.add node b.result).1 :=
  ⟨sound.add (typed_of_makes prepared.indexType valued serves given makes)
    (.inl (serves.valued_result prepared valued)), made_add _ _ (serves.accepts_result valued.wellFormed)⟩

theorem acceptsResult_of_returns {wanted : Option Ty} {m m' : Method} (same : m'.returns = m.returns)
    (h : acceptsResult wanted m = true) : acceptsResult wanted m' = true := by
  cases wanted with
  | none => rfl
  | some t =>
    unfold acceptsResult
    rw [same]
    exact h

theorem acceptsResult_of_fits {wanted : Option Ty} {m : Method} {returns : Ty}
    (same : m.returns = returns) (fits : ∀ t, wanted = some t → returns = t)
    (valued : ∀ t, wanted = some t → t.Valued) : acceptsResult wanted m = true := by
  cases wanted with
  | none => rfl
  | some t =>
    unfold acceptsResult
    rw [same, fits t rfl]
    exact Ty.accepts_refl (valued t rfl)

theorem Program.Sound.addAssigned {c : Catalog} {p p' : Program} {v : Var} {source : ExprId} {t : Ty}
    (sound : p'.Sound c) (h : p.Extends p') (declared : p.declared.Declares v)
    (writable : p.declared.isReadOnly v = false) (made : p'.Made (p.declared.typeOf v) source)
    (accepted : t.accepts (p.declared.typeOf v) = true) :
    (p'.addAssignment v source).2.Sound c ∧
      (p'.addAssignment v source).2.Made t (p'.addAssignment v source).1 := by
  rw [← h.typeOf_var declared] at made accepted
  refine ⟨sound.addAssignment (h.declares declared) ?_ made.inside made.accepted, ?_⟩
  · rw [h.isReadOnly declared, writable]
  · exact made_add _ _ accepted

theorem Program.Sound.addMethodCall {c : Catalog} {p p' : Program} {m : MethodId}
    {args : List ExprId} {wanted : Option Ty} (sound : p.Sound c) (sound' : p'.Sound c)
    (h : p.Extends p') (inside : m < p.declared.methods.size)
    (given : p'.Accepts (p.declared.method m).params args)
    (accepted : acceptsResult wanted (p.declared.method m) = true) (called : ExprId × Program)
    (added : called = p'.addCall ⟨(p.declared.method m).isStatic, none, (p.declared.method m).name,
      some m⟩ none args (p.declared.method m).returns) :
    called.2.Sound c ∧ called.1 < called.2.arena.size ∧
      ∀ t, wanted = some t → t.accepts (called.2.typeOf called.1) = true := by
  subst added
  have known := Nat.lt_of_lt_of_le inside h.methods_size
  refine ⟨sound'.add (.call known ?_ (h.returns inside).symm) (sound.returns m inside), ?_, ?_⟩
  · rw [h.params inside]
    exact given
  · rw [Program.addCall, size_add]
    exact Nat.lt_succ_self _
  · rintro t rfl
    exact (made_add _ _ accepted).accepted

namespace Opening

variable {site : Site} {caller : MethodId} {wanted : Option Ty} {c : Catalog} {p q : Program}

theorem methodTyped (o : Opening site caller wanted p) {body : Block}
    (later : o.program.Extends q) (typed : q.BlockTyped o.returns body) :
    q.MethodTyped ⟨o.method, o.locals, body⟩ := by
  obtain ⟨inside, _, params, returns⟩ := o.method_program
  obtain ⟨locals, types⟩ := (p.withDeclared o.declared).new_addParameters o.params
  have opened : o.program.MethodTyped ⟨o.method, o.locals, []⟩ :=
    ⟨inside, locals, types.trans params.symm, .nil⟩
  refine { opened.later later with body := ?_ }
  rw [later.returns inside, returns]
  exact typed

/-- The result of the new method is what was asked for. -/
theorem sound_closeMethod (o : Opening site caller wanted p) {body : Block} (sound : q.Sound c)
    (later : o.program.Extends q) (typed : q.BlockTyped o.returns body)
    (valued : ∀ t, wanted = some t → t.Valued) :
    (q.closeMethod o.method o.locals body).Sound c ∧
      o.method < (q.closeMethod o.method o.locals body).declared.methods.size ∧
      acceptsResult wanted ((q.closeMethod o.method o.locals body).declared.method o.method) =
        true := by
  obtain ⟨inside, _, _, returns⟩ := o.method_program
  have h := later.trans (extends_closeMethod q o.method o.locals body)
  have complete := (o.methodTyped later typed).later (q.extends_recordCost o.method body)
  refine ⟨(sound.recordCost ..).addBody complete,
    Nat.lt_of_lt_of_le inside h.methods_size, acceptsResult_of_returns (h.returns inside) ?_⟩
  exact acceptsResult_of_fits returns o.fits valued

end Opening

/-- A run that may be started leaves a well-typed class and gives what it is for. -/
theorem Run.sound {c : Catalog} {task : Task} {p p' : Program} {r : task.Outcome}
    (run : Run task p r p') :
    p.Sound c → task.Ready c p → p'.Sound c ∧ task.Delivers p' r := by
  induction run with
  | reuse _ offered _ accepted =>
    intro sound ⟨good, _⟩
    exact sound.addRead (good.declares offered) accepted
  | exprCall _ _ _ _ ih =>
    intro sound ⟨good, valued⟩
    obtain ⟨sound, made, accepted⟩ := ih sound ⟨good, valued.wanted⟩
    exact ⟨sound, made, accepted _ rfl⟩
  | assign _ _ _ offered writable accepted run ih =>
    intro sound ⟨good, _⟩
    have declared := good.declares offered
    obtain ⟨sound, made⟩ := ih sound ⟨good.deeper, sound.vars _ declared⟩
    exact sound.addAssigned run.extends declared writable made accepted
  | binary _ _ chosen left right ihLeft ihRight =>
    intro sound ⟨good, _⟩
    rw [good.division] at chosen
    obtain ⟨leftValued, rightValued⟩ := chosen.valued
    obtain ⟨sound, madeLeft⟩ := ihLeft sound ⟨good.deeper, leftValued⟩
    obtain ⟨sound, madeRight⟩ := ihRight sound ⟨good.deeper.later left.extends, rightValued⟩
    rw [← (left.extends.trans right.extends).knobs] at chosen
    exact sound.applied chosen (madeLeft.later right.extends) madeRight
  | cast _ _ numeric source _ ih =>
    intro sound ⟨good, _⟩
    obtain ⟨sound, made⟩ := ih sound ⟨good.deeper, trivial⟩
    refine ⟨sound.add (.cast made.inside numeric ?_) (.inl trivial), ?_⟩
    · exact Ty.isNumeric_of_accepts made.accepted source
    · exact made_add _ _ (Ty.accepts_refl trivial)
  | build _ offered args makes ih =>
    intro sound ⟨good, valued⟩
    have serves := good.serves offered
    obtain ⟨sound, given⟩ := ih sound ⟨good, serves.valued_parameters good.prepared valued⟩
    exact sound.addBuilt (good.later args.extends).prepared valued serves given makes
  | exprAfter detour _ ihDetour ih =>
    intro sound ⟨good, valued⟩
    exact ih (ihDetour sound ⟨good, valued.wanted⟩).1 ⟨good.later detour.extends, valued⟩
  | argumentReuse offered _ accepted =>
    intro sound ⟨good, _⟩
    exact sound.addRead (good.declares offered) accepted
  | argumentExpr _ _ ih =>
    intro sound ⟨good, valued⟩
    exact ih sound ⟨good.deeper.withoutNull _, valued⟩
  | argumentDirect _ own _ none makes =>
    intro sound ⟨good, valued⟩
    have serves := good.serves_of_mem_ownBuilders own
    refine sound.addBuilt good.prepared valued serves ?_ makes
    rw [none]
    exact .nil
  | argumentsNil => exact fun sound _ => ⟨sound, .nil⟩
  | argumentsCons first rest ihFirst ihRest =>
    intro sound ⟨good, valued⟩
    obtain ⟨sound, made⟩ := ihFirst sound ⟨good, valued _ List.mem_cons_self⟩
    obtain ⟨sound, others⟩ := ihRest sound
      ⟨good.later first.extends, fun t member => valued t (List.mem_cons_of_mem _ member)⟩
    have made := made.later rest.extends
    exact ⟨sound, .cons ⟨made.inside, made.accepted⟩ others⟩
  | calleeFound callable accepted _ recorded =>
    intro sound ⟨good, known, _⟩
    have inside := (Declarations.mem_callable.1 callable).1
    have h := extends_addCallEdge recorded
    refine ⟨sound.addCallEdge (good.method _ known).1 inside recorded, ?_, ?_⟩
    · exact Nat.lt_of_lt_of_le inside h.methods_size
    · exact acceptsResult_of_returns (h.returns inside) accepted
  | calleeNew _ _ _ ih => exact ih
  | call known callee same _ args ihCallee ihArgs =>
    intro sound ⟨good, valued⟩
    subst same
    obtain ⟨sound, inside, accepted⟩ := ihCallee sound ⟨good, known, valued⟩
    obtain ⟨sound', given⟩ := ihArgs sound ⟨good.later callee.extends, sound.params _ inside⟩
    exact sound.addMethodCall sound' args.extends inside given accepted _ rfl
  | @method _ _ _ _ _ _ o _ _ _ _ body ending ihBody ihEnding =>
    intro sound ⟨good, known, valued⟩
    have inner := o.good good
    obtain ⟨sound, typed⟩ := ihBody (o.sound good sound known valued) inner
    obtain ⟨sound, typed'⟩ := ihEnding sound
      ⟨(inner.later body.extends).afterBlock (typed .void).declaresIn, o.valued_returns good valued⟩
    have typed := ((typed o.returns).later ending.extends).append typed'
    exact o.sound_closeMethod sound (body.extends.trans ending.extends) typed valued
  | endingVoid last =>
    intro sound _
    rcases last with rfl | rfl
    · exact ⟨sound, .nil⟩
    · exact ⟨sound, .leaf rfl trivial⟩
  | endingValue notVoid _ ih =>
    intro sound ⟨good, valued⟩
    have type := valued.resolve_right (by rintro rfl; contradiction)
    obtain ⟨sound, made⟩ := ih sound ⟨good.atStatement, type⟩
    exact ⟨sound, .leaf rfl made⟩
  | boundReuse _ offered _ accepted =>
    intro sound good
    exact sound.addRead (good.declares offered) accepted
  | boundLiteral type fits =>
    intro sound good
    subst type
    have valued := OfferedType.loopBound.valued good.prepared
    exact ⟨sound.add (.constant fits) (.inl valued), made_add _ _ (Ty.accepts_refl valued)⟩
  | print _ type _ _ ih =>
    intro sound good
    obtain ⟨sound, made⟩ := ih sound ⟨good, good.valued (.flat type)⟩
    exact ⟨sound, fun _ => .leaf rfl made.inside⟩
  | assignStatement _ _ offered writable run ih =>
    intro sound good
    have declared := good.declares offered
    have valued := sound.vars _ declared
    obtain ⟨sound, made⟩ := ih sound ⟨good, valued⟩
    obtain ⟨sound, made⟩ :=
      sound.addAssigned run.extends declared writable made (Ty.accepts_refl valued)
    exact ⟨sound, fun _ => .leaf rfl made.inside⟩
  | callStatement _ _ _ _ ih =>
    intro sound good
    obtain ⟨sound, inside, _⟩ := ih sound ⟨good, by simp⟩
    exact ⟨sound, fun _ => .leaf rfl inside⟩
  | @declare _ t _ p' _ _ modifiers _ _ type _ _ ih =>
    intro sound good
    have valued := good.valued type
    obtain ⟨sound, made⟩ := ih sound ⟨good, valued⟩
    have made := made.later (p'.extends_addInitializedLocal modifiers t)
    obtain ⟨known, same⟩ := p'.new_addInitializedLocal modifiers t
    exact ⟨sound.addInitializedLocal modifiers valued,
      fun _ => .leaf rfl ⟨known, same.symm ▸ made⟩⟩
  | declareField _ _ type _ _ ih =>
    intro sound good
    have valued := good.valued type
    obtain ⟨sound, made⟩ := ih sound ⟨good.inInitializer _, valued⟩
    exact ⟨sound.addInitializedField _ valued made, fun _ => .nil⟩
  | ifThen _ _ _ _ condition _ body ihCondition ihBody =>
    intro sound good
    obtain ⟨sound, made⟩ := ihCondition sound ⟨good, trivial⟩
    obtain ⟨sound, typed⟩ := ihBody sound (good.inBranch.later condition.extends)
    exact ⟨sound, fun returns => .singleton rfl (made.later body.extends) (typed returns)⟩
  | ifElse _ _ _ _ condition _ body _ _ otherwise ihCondition ihBody ihOtherwise =>
    intro sound good
    obtain ⟨sound, made⟩ := ihCondition sound ⟨good, trivial⟩
    obtain ⟨sound, typed⟩ := ihBody sound (good.inBranch.later condition.extends)
    obtain ⟨sound, typed'⟩ := ihOtherwise sound
      (good.inBranch.later (condition.extends.trans body.extends))
    have made := made.later (body.extends.trans otherwise.extends)
    exact ⟨sound, fun returns => .singleton (Statement.visit_ifElse ..) made
      (((typed returns).later otherwise.extends).append (typed' returns))⟩
  | @loop _ _ p' _ kind _ limit _ _ inner _ _ _ _ _ bound counter _ body ihBound ihBody =>
    intro sound good
    subst counter
    obtain ⟨sound, made⟩ := ihBound sound good
    obtain ⟨sound, typed⟩ := ihBody sound.addCounter
      ((good.later bound.extends).inLoop _)
    refine ⟨sound, fun returns => .singleton rfl ?_ (typed returns)⟩
    have header : p'.addCounter.2.StatementTyped returns (.loop kind p'.addCounter.1 limit inner) :=
      ⟨p'.new_addCounter, made.later p'.extends_addCounter⟩
    exact header.later body.extends
  | noStatement _ => exact fun sound _ => ⟨sound, fun _ => .nil⟩
  | statementAfter _ detour _ ihDetour ih =>
    intro sound good
    exact ih (ihDetour sound ⟨good, by simp⟩).1 (good.later detour.extends)
  | blockNil => exact fun sound _ => ⟨sound, fun _ => .nil⟩
  | blockCons first rest ihFirst ihRest =>
    intro sound good
    obtain ⟨sound, typed⟩ := ihFirst sound good.atStatement
    obtain ⟨sound, typed'⟩ := ihRest sound
      ((good.later first.extends).afterBlock (typed .void).declaresIn)
    exact ⟨sound, fun returns => ((typed returns).later rest.extends).append (typed' returns)⟩
  | noDetour => exact fun sound _ => ⟨sound, trivial⟩
  | detourMethod known _ _ _ ih =>
    intro sound ⟨good, valued⟩
    exact ⟨(ih sound ⟨good, known, valued⟩).1, trivial⟩
  | detourCall known _ callee _ few args ihCallee ihArgs =>
    intro sound ⟨good, valued⟩
    obtain ⟨sound, inside, _⟩ := ihCallee sound ⟨good, known, valued⟩
    refine ⟨(ihArgs sound ⟨good.later callee.extends, fun t member => ?_⟩).1, trivial⟩
    exact sound.params _ inside t (few.subset member)
  | detourBuilder _ offered few args ih =>
    intro sound ⟨good, valued⟩
    have serves := good.serves offered
    refine ⟨(ih sound ⟨good, fun t member => ?_⟩).1, trivial⟩
    exact serves.valued_parameters good.prepared (valued _ rfl) t (few.subset member)
  | detourTrans first _ ihFirst ihSecond =>
    intro sound ⟨good, valued⟩
    exact ⟨(ihSecond (ihFirst sound ⟨good, valued⟩).1 ⟨good.later first.extends, valued⟩).1, trivial⟩

end JavaSmith
