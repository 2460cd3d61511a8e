import JavaSmith.Proofs.Generators.Methods
import JavaSmith.Proofs.Writing

/-! Generation as a whole. Whatever the seed, the name and the settings, it comes to its end with a class
that a run of the entry's body has left, so what holds of all runs holds of all classes. -/
namespace JavaSmith

open Generator Program

def entrySite (c : Catalog) (knobs : Knobs) : Site :=
  ⟨c, (Context.ofKnobs knobs).enterMethod entryId false runBudget, .empty⟩

def Program.closeEntry (p : Program) (body : Block) : Program :=
  { p.recordCost entryId body with entry := { p.entry with body } }

structure Generated (c : Catalog) (seed : UInt64) (config : Config) (p : Program) : Prop where
  prepared : c.Prepared config.knobs
  run : ∃ length body q, length ≤ config.knobs.get .maxProgramLength ∧
    Run (.block (entrySite c config.knobs) length) (.new config.className seed config.knobs) body q ∧
    p = q.closeEntry body

variable {c : Catalog} {p : Program} {seed : UInt64} {config : Config}

namespace Program

theorem sound_new (c : Catalog) (className : String) (seed : UInt64) (knobs : Knobs) :
    (new className seed knobs).Sound c where
  tracks := Declarations.tracks_empty.appendMethod _
  typed e inside := absurd inside (Nat.not_lt_zero e)
  valued e inside := absurd inside (Nat.not_lt_zero e)
  vars v declared := by
    cases v with
    | field id => exact absurd declared (Nat.not_lt_zero id)
    | localVar id => exact absurd declared (Nat.not_lt_zero id)
  params m inside := by
    obtain rfl : m = 0 := Nat.lt_one_iff.1 inside
    exact fun t none => by contradiction
  returns m inside := by
    obtain rfl : m = 0 := Nat.lt_one_iff.1 inside
    exact .inr rfl
  fields f none := by contradiction
  methods m none := by contradiction

theorem extends_closeEntry (p : Program) (body : Block) : p.Extends (p.closeEntry body) :=
  (p.extends_recordCost entryId body).trans { Extends.refl _ with }

theorem methodsInOrder_closeEntry {p : Program} {className : String} {seed : UInt64} {knobs : Knobs}
    (h : (new className seed knobs).Extends p) (body : Block) :
    (p.closeEntry body).methodsInOrder = p.methods.toList ++ [⟨entryId, [], body⟩] := by
  have same : (p.closeEntry body).entry = ⟨entryId, [], body⟩ :=
    congrArg₂ (MethodDeclaration.mk · · body) h.entry h.entryParams
  rw [methodsInOrder, same]
  rfl

theorem Sound.closeEntry (sound : p.Sound c) (body : Block) : (p.closeEntry body).Sound c := by
  have recorded := sound.recordCost entryId body
  exact recorded.of_extends { Extends.refl _ with } rfl recorded.tracks (fun v => .inl)
    (fun m => .inl) (fun f => .inl) (fun m => .inl)

end Program

theorem good_entrySite (prepared : c.Prepared config.knobs) (className : String) (seed : UInt64) :
    (entrySite c config.knobs).Good c (new className seed config.knobs) where
  catalog := rfl
  prepared := prepared
  division := rfl
  method m known := by
    cases known
    exact ⟨Nat.zero_lt_one, rfl⟩
  scope l visible := by contradiction

theorem ensures_entryBody (prepared : c.Prepared config.knobs) (seed : UInt64) :
    Ensures (entryBody c) (.new config.className seed config.knobs) fun _ p =>
      Generated c seed config p := by
  refine Ensures.view ?_
  refine Ensures.draw (always_length _) fun length short => ?_
  refine Ensures.bind (ensures_block (sound_new ..) (good_entrySite prepared _ seed))
    fun body q run => ?_
  refine Ensures.step ?_
  exact Ensures.last ⟨prepared, length, body, q, short, run, rfl⟩

/-- What the body of the entry leaves comes out of the session. -/
theorem generateWith_of_entryBody (catalog : Catalog) (seed : UInt64) (config : Config)
    {Q : Catalog → Program → Prop}
    (h : ∀ c : Catalog, c.Prepared config.knobs → ∃ draft,
      entryBody c ⟨.new config.className seed config.knobs, .ofSeed seed⟩ = .ok () draft ∧
        Q c draft.program) :
    ∃ p c, generateWith catalog seed config = .ok (p, c) ∧ Q c p := by
  obtain ⟨c, reset, prepared⟩ := catalog.prepare_reset config.knobs
  obtain ⟨draft, done, holds⟩ := h c prepared
  refine ⟨draft.program, c, ?_, holds⟩
  unfold generateWith
  rw [reset]
  dsimp only [bind, Except.bind]
  rw [done]
  rfl

theorem generateWith_of_ensures (catalog : Catalog) (seed : UInt64) (config : Config)
    {Q : Catalog → Program → Prop}
    (h : ∀ c : Catalog, c.Prepared config.knobs →
      Ensures (entryBody c) (.new config.className seed config.knobs) fun _ p => Q c p) :
    ∃ p c, generateWith catalog seed config = .ok (p, c) ∧ Q c p := by
  refine generateWith_of_entryBody catalog seed config fun c prepared => ?_
  obtain ⟨_, draft, done, holds⟩ := h c prepared (.ofSeed seed)
  exact ⟨draft, done, holds⟩

/-- Generation always comes to its end. -/
theorem generateWith_ok (catalog : Catalog) (seed : UInt64) (config : Config) :
    ∃ p c, generateWith catalog seed config = .ok (p, c) ∧ Generated c seed config p :=
  generateWith_of_ensures catalog seed config fun _ prepared => ensures_entryBody prepared seed

theorem generated_of_eq_ok {catalog : Catalog} (done : generateWith catalog seed config = .ok (p, c)) :
    Generated c seed config p := by
  obtain ⟨q, c', done', generated⟩ := generateWith_ok catalog seed config
  obtain ⟨rfl, rfl⟩ := Prod.mk.inj (Except.ok.inj (done'.symm.trans done))
  exact generated

namespace Generated

theorem sound (generated : Generated c seed config p) : p.Sound c := by
  obtain ⟨length, body, q, _, run, rfl⟩ := generated.run
  exact (run.sound (sound_new ..) (good_entrySite generated.prepared _ seed)).1.closeEntry body

theorem knobs (generated : Generated c seed config p) : p.knobs = config.knobs := by
  obtain ⟨length, body, q, _, run, rfl⟩ := generated.run
  exact run.extends.knobs

theorem methodTyped (generated : Generated c seed config p) :
    ∀ m ∈ p.methodsInOrder, p.MethodTyped m := by
  obtain ⟨length, body, q, _, run, rfl⟩ := generated.run
  have h := run.extends
  rw [methodsInOrder_closeEntry h]
  intro m member
  rcases List.mem_append.1 member with complete | last
  · exact generated.sound.methods m complete
  · have good := good_entrySite generated.prepared config.className seed
    have typed := (run.sound (sound_new ..) good).2 .void
    have known : entryId < (Program.new config.className seed config.knobs).declared.methods.size :=
      Nat.zero_lt_one
    have entry : q.MethodTyped ⟨entryId, [], body⟩ := by
      refine ⟨Nat.lt_of_lt_of_le known h.methods_size, fun l none => by contradiction, ?_, ?_⟩
      · exact (h.params known).symm
      · rw [h.returns known]
        exact typed
    rw [List.mem_singleton.1 last]
    exact entry.later (q.extends_closeEntry body)

theorem roots_entry (generated : Generated c seed config p) : p.Roots p.entry.body :=
  (generated.methodTyped p.entry (List.mem_append_right _ List.mem_cons_self)).body.roots

end Generated

/-- Generation never fails: a class comes out whose expressions all have a value, and it can be
written. -/
theorem generate_writable (seed : UInt64) (config : Config) :
    ∃ p text, generate seed config = .ok p ∧ (∀ e < p.exprCount, p.isHole e = false) ∧
      p.source = .ok text := by
  obtain ⟨p, c, done, generated⟩ := generateWith_ok .new seed config
  obtain ⟨text, written⟩ := generated.sound.source_ok generated.roots_entry
  refine ⟨p, text, ?_, fun e inside => generated.sound.isHole inside, written⟩
  unfold generate
  rw [done]
  rfl

/-- Every expression of a generated class obeys the typing rule of its node. -/
theorem generated_typed (catalog : Catalog) (seed : UInt64) (config : Config) :
    ∃ p c, generateWith catalog seed config = .ok (p, c) ∧
      ∀ e < p.exprCount, p.Typed c e (p.node e) (p.typeOf e) := by
  obtain ⟨p, c, done, generated⟩ := generateWith_ok catalog seed config
  exact ⟨p, c, done, generated.sound.typed⟩

end JavaSmith
